import Kubert.Lease.Holder

/-!
# A takeover waits for the recorded expiry

`acquire` overwrites the holder.  It is reached when nothing is cached (the
resource was decoded as unclaimed or expired, or `vacate` dropped the claim) or
when the cached claim is somebody else's and has run out.  In each of these
situations the resource at the cached version is *free* for the manager's
claimant: it records the claimant itself, or an expiry that has been reached.

This needs that every manager serves one claimant.  A manager that is used with
two of them could drop the first one's claim in a failed `vacate` and then
acquire for the second.
-/

namespace Kubert
namespace Lease

open Foundation

variable {ι : Type}

/-- Nobody but the claimant holds an unexpired claim on the resource. -/
def FreeFor (claimant : String) (now : DateTime) (spec : Option LeaseSpec) :
    Prop :=
  ∀ holder expiry, holderOf spec = some holder → holder ≠ claimant →
    expiryOf spec = some expiry → expiry ≤ now.nanos

theorem FreeFor.mono {claimant : String} {now later : DateTime}
    {spec : Option LeaseSpec} (hle : now ≤ later)
    (hfree : FreeFor claimant now spec) : FreeFor claimant later spec := by
  intro holder expiry hholder hne hexpiry
  have hreached := hfree holder expiry hholder hne hexpiry
  have hle' := (DateTime.le_def now later).mp hle
  omega

/-- A claim that is over, or that is the claimant's own, leaves the resource
free for the claimant. -/
theorem HeldUntil.freeFor {holder claimant : String} {expiry : Int}
    {now : DateTime} {spec : Option LeaseSpec}
    (hheld : HeldUntil holder expiry spec)
    (hwhy : expiry ≤ now.nanos ∨ holder = claimant) :
    FreeFor claimant now spec := by
  intro other e hother hne he
  rcases hwhy with hover | hown
  · have hle := hheld.2 e he
    omega
  · have hsame := hheld.1
    rw [hother] at hsame
    exact absurd ((Option.some.inj hsame).trans hown) hne

/-- Every manager is called with its own claimant only. -/
def serves (claimantOf : ι → String) : ι → Op → Prop
  | i, .ensureClaimed claimant _ => claimant = claimantOf i
  | i, .vacate claimant => claimant = claimantOf i
  | _, _ => True

/-- On top of `holding`: where no claim is cached, and where `acquire` has been
sent, the resource is free for the claimant. -/
def freedom (claimantOf : ι → String) : Assertion ι where
  cached := fun i now state spec =>
    (holding ι).cached i now state spec ∧
      (state.claim = none → FreeFor (claimantOf i) now spec)
  sent := fun now call spec =>
    (holding ι).sent now call spec ∧
      (call.isAcquire = true → FreeFor call.claimant now spec)
  wrote := (holding ι).wrote

/-- Each of the situations that lead to `acquire` leaves the resource free. -/
theorem freedom_sound (profile : Profile) (claimantOf : ι → String)
    {allowed : ι → Op → Prop}
    (hserves : ∀ i op, allowed i op → serves claimantOf i op) :
    (freedom claimantOf).Sound profile allowed where
  cached_mono := by
    intro i now later state spec hle h
    exact ⟨h.1, fun hnone => (h.2 hnone).mono hle⟩
  sent_mono := by
    intro now later call spec hle h
    exact ⟨h.1, fun hacquire => (h.2 hacquire).mono hle⟩
  read := by
    intro i now lease state hget
    refine ⟨(holding_sound profile allowed).read hget, fun hnone => ?_⟩
    intro holder expiry hholder _ hexpiry
    exact (get_ok hget).2.2.2 hnone holder expiry hholder hexpiry
  drop := by
    intro i now state claim claimant spec hop hclaim hwhy hcached
    refine ⟨(fun c hc => nomatch hc), fun _ => ?_⟩
    -- A dropped claim is over or the manager's own, which is free for it either way.
    refine (hcached.1 claim hclaim).freeFor (hwhy.imp ?_ ?_)
    · exact (claim.isCurrent_eq_false_iff now).mp
    · intro hholder
      exact hholder.trans (hserves i _ hop)
  acquire := by
    intro i now state claimant params write spec hop hhead hwrite hcached
    refine ⟨(holding_sound profile allowed).acquire hop hhead hwrite
      hcached.1, fun _ => ?_⟩
    have hclaimant : write.claimant = claimantOf i := by
      obtain ⟨transitions, -, rfl⟩ := Option.map_eq_some_iff.mp hwrite
      exact hserves i _ hop
    change FreeFor write.claimant now spec
    rw [hclaimant]
    -- Without a cached claim freedom is known already; a cached one is over.
    cases hclaim : state.claim with
    | none => exact hcached.2 hclaim
    | some claim =>
        obtain ⟨-, hover⟩ := ensureClaimedHead_eq_acquire_iff.mp hhead claim hclaim
        exact (hcached.1 claim hclaim).freeFor (Or.inl hover)
  renew := by
    intro i now state claimant params spec hop hhead hcached
    exact ⟨(holding_sound profile allowed).renew hop hhead hcached.1,
      fun hacquire => nomatch hacquire⟩
  vacate := by
    intro i now state claim claimant spec hop hclaim hcurrent hholder hcached
    exact ⟨(holding_sound profile allowed).vacate hop hclaim hcurrent
      hholder hcached.1, fun hacquire => nomatch hacquire⟩
  apply := fun hsent happly =>
    (holding_sound profile allowed).apply hsent.1 happly
  finish := by
    intro i now write lease claim newMeta spec hfinish hwrote
    exact ⟨(holding_sound profile allowed).finish hfinish hwrote,
      fun hnone => nomatch hnone⟩

variable [DecidableEq ι]

/-- Managers that serve one claimant each: when an applied patch moves the
holder from one claimant to another, the clock has reached the expiry that the
resource recorded just before. -/
theorem takeover_after_recorded_expiry (profile : Profile)
    (claimantOf : ι → String) {now : DateTime} {version : String}
    {spec : Option LeaseSpec} {actions : List (Action ι)} {s t : Sys ι}
    {req : Request ι} {next before after : String} {expiry : Int}
    (hrun : Run (Sys.StepWith profile (serves claimantOf))
      (Sys.initial now version spec) actions s)
    (happlied : Sys.Step profile s (.apply req next) t)
    (hbefore : holderOf s.server.value = some before)
    (hafter : holderOf t.server.value = some after) (hne : before ≠ after)
    (hexpiry : expiryOf s.server.value = some expiry) :
    expiry ≤ s.now.nanos := by
  have hknows := Knowledge.run
    (freedom_sound profile claimantOf fun _ _ hop => hop) hrun
  obtain ⟨ret, hcases⟩ := happlied.cases
  cases hcases with
  | node hfeeds _ => cases hfeeds
  | @apply _ _ call spec' hmem hbody hversion hnew happly =>
      obtain ⟨hholding, hfree⟩ := (hknows.sent req hmem call hbody).elim hversion
      change holderOf (some spec') = some after at hafter
      cases call with
      | vacate version claimant =>
          rw [(applyTo_vacate happly).1] at hafter
          cases hafter
      | claim write =>
          cases hkind : write.kind with
          | renew =>
              -- A renewal leaves the holder as it is.
              rw [(ClaimWrite.applyTo_renew hkind happly).1, hbefore] at hafter
              exact absurd (Option.some.inj hafter) hne
          | acquire =>
              -- Only an acquire changes the holder, and it was sent to a free resource.
              rw [(ClaimWrite.applyTo_acquire hkind happly).1] at hafter
              obtain rfl : write.claimant = after := Option.some.inj hafter
              have hacquire : (PatchCall.claim write).isAcquire = true := by
                simp [PatchCall.isAcquire, hkind]
              exact hfree hacquire before expiry hbefore hne hexpiry

/-- Alice's manager serves alice, bob's serves bob. -/
def exampleClaimant (i : Bool) : String := if i then "bob" else "alice"

/-- One second after alice's claim has run out. -/
def exampleLater : DateTime := ⟨1700000031000000000, by decide, by decide⟩

/-- Bob's write at that time. -/
def bobAcquire : ClaimWrite :=
  ⟨.acquire, "2", "bob", (default : ClaimParams).leaseDelta, exampleLater, 2⟩

/-- Alice's claim runs out, and bob's manager gets ready to take over. -/
def bobTakesOver : List (Action Bool) :=
  aliceClaims ++
    [.tick exampleLater, .call true .init, .serve ⟨6, true, .get⟩,
      .deliver true (.ok ⟨some "2", some aliceLease⟩),
      .call true (.ensureClaimed "bob" default), .resume true, .resume true]

/-- Bob takes the lease over from alice, whose claim has run out by then. -/
theorem bob_takeover_after_recorded_expiry :
    ∃ s t : Sys Bool,
      Run (Sys.StepWith .release (serves exampleClaimant)) exampleStart
        bobTakesOver s ∧
      Sys.Step .release s
        (.apply ⟨10, true, .patch (.claim bobAcquire)⟩ "3") t ∧
      holderOf s.server.value = some "alice" ∧
      holderOf t.server.value = some "bob" ∧
      1700000030000000000 ≤ s.now.nanos := by
  obtain ⟨s, t, hs, hstep, ht⟩ := exists_execAll_step
    (show (execAll (Sys.step? .release) exampleStart
      (bobTakesOver ++
        [.apply ⟨10, true, .patch (.claim bobAcquire)⟩ "3"])).isSome = true by
      decide +kernel)
  have hserves : ∀ a ∈ bobTakesOver, a.Obeys (serves exampleClaimant) := by
    simp [bobTakesOver, aliceClaims, Action.Obeys, serves, exampleClaimant]
  have hrun : Run (Sys.StepWith .release (serves exampleClaimant)) exampleStart
      bobTakesOver s :=
    (run_of_execAll (fun _ _ _ h => h) hs).restrict hserves
  have hholder : holderOf s.server.value = some "alice" :=
    eq_of_execAll_map (fun s => holderOf s.server.value) hs (by decide +kernel)
  have hexpiry : expiryOf s.server.value = some 1700000030000000000 :=
    eq_of_execAll_map (fun s => expiryOf s.server.value) hs (by decide +kernel)
  have hafter : holderOf t.server.value = some "bob" :=
    eq_of_execAll_map (fun s => holderOf s.server.value) ht (by decide +kernel)
  exact ⟨s, t, hrun, hstep, hholder, hafter,
    takeover_after_recorded_expiry .release exampleClaimant hrun hstep hholder
      hafter (by decide) hexpiry⟩

end Lease
end Kubert
