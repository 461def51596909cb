import Kubert.Lease.Failures

/-!
# Dates that leave the range of `chrono`

`ensure_claimed` computes three kinds of dates with the operators of `chrono`, which
panic out of its range of about 262 000 years in both directions: `get` adds the
duration of a lease to its renew time, `acquire` and `renew` add the lease duration to
the time that they have written, and the top of the loop takes the grace period off the
expiry of an own claim.

The first two stay in the range: what the API server admits is a positive `int32` of
seconds after a date with four digits for the year, and `acquire` and `renew` add
nothing before the server has admitted the duration.  Nobody admits the grace period.
It is cut down to zero if it is longer than the longest `chrono::Duration`, which is a
thousand times as long as the range of dates; in between the subtraction panics
(`date_overflow_iff`).
-/

namespace Kubert
namespace Lease

open Foundation

/-! ## What can be expected of clocks and responses -/

/-- A date in the years 1970 to 9999. -/
def DateTime.SinceEpoch (t : DateTime) : Prop := 0 ≤ t.nanos ∧ t.nanos < 253402300800000000000

/-- A date in the years 0000 to 9999. -/
def DateTime.FourDigits (t : DateTime) : Prop :=
  -62167219200000000000 ≤ t.nanos ∧ t.nanos < 253402300800000000000

/-- What the API server admits: a renew time with a four-digit year, and a positive
`int32` of seconds. -/
structure LeaseSpec.Admitted (spec : LeaseSpec) : Prop where
  renewTime : ∀ t, spec.renewTime = some t → t.FourDigits
  leaseDurationSeconds : ∀ secs, spec.leaseDurationSeconds = some secs → 0 < secs.toInt

namespace Node

/-- An event that a manager can meet: the clock stands in the years 1970 to 9999, a
response shows a resource that the API server admits, and a write is answered with
success only if its duration is a positive `int32`. -/
structure Admits (node : Node) (e : NodeEvent) : Prop where
  clock : e.now.SinceEpoch
  response : ∀ lease spec, e.input = .response (.ok lease) → lease.spec = some spec →
    spec.Admitted
  write : ∀ id write params lease, node.pc = .claiming id write params →
    e.input = .response (.ok lease) →
    0 < write.leaseDuration.numSeconds ∧ write.leaseDuration.numSeconds < 2147483648

/-- The step computes a date that leaves the range: at the top of the loop, after a
write, or in `get`. -/
def Overflows (node : Node) (e : NodeEvent) : Prop :=
  match node.pc, node.manager, e.input with
  | .ensuring claimant params, some m, .resume =>
      ensureClaimedHead e.now m.state claimant params = .panic
  | .claiming _ write _, some _, .response (.ok lease) => write.finish lease = .error .panic
  | .getting _ _, _, .response result => get e.now result = .error .panic
  | _, _, _ => False

/-- The top of the loop finds an own claim, and a grace period that `chrono` can
represent reaches from its expiry back before the first date. -/
def GraceOverflows (node : Node) (e : NodeEvent) : Prop :=
  ∃ m claimant params claim grace, node.manager = some m ∧
    node.pc = .ensuring claimant params ∧ e.input = .resume ∧
    m.state.claim = some claim ∧ claim.holder = claimant ∧
    TimeDelta.fromStd params.renewGracePeriod = some grace ∧
    claim.expiry.nanos - grace.nanos < -8334601228800000000000

end Node

/-! ## The three computations -/

theorem TimeDelta.nanos_lt_of_numSeconds {d : TimeDelta} (hnonneg : 0 ≤ d.nanos)
    (hfits : d.numSeconds < 2147483648) : d.nanos < 2147483648000000000 := by
  unfold TimeDelta.numSeconds nanosPerSec at hfits
  rw [Int.tdiv_eq_ediv_of_nonneg hnonneg] at hfits
  omega

/-- `get` stays in the range on what the API server admits. -/
theorem get_ne_panic {now : DateTime} {result : Except Error LeaseResource}
    (hadmitted : ∀ lease spec, result = .ok lease → lease.spec = some spec → spec.Admitted) :
    get now result ≠ .error .panic := by
  intro hpanic
  unfold get at hpanic
  split at hpanic
  · cases hpanic
  · rename_i lease
    split at hpanic
    · cases hpanic
    · rename_i spec hspec
      split at hpanic
      · cases hpanic
      · simp only at hpanic
        split at hpanic
        · rename_i holder renewTime secs hholder hrenew hsecs
          split at hpanic
          · rename_i hadd
            obtain ⟨hlower, hupper⟩ := (hadmitted lease spec rfl hspec).renewTime _ hrenew
            have hpos := (hadmitted lease spec rfl hspec).leaseDurationSeconds _ hsecs
            have hlt := secs.toInt_lt
            rw [DateTime.checkedAdd, dif_pos (by rw [TimeDelta.seconds_nanos]; omega)] at hadd
            cases hadd
          · split at hpanic
            · cases hpanic
            · cases hpanic
        · cases hpanic

/-- `acquire` and `renew` stay in the range on a duration that the API server admits. -/
theorem ClaimWrite.finish_ne_panic {w : ClaimWrite} {lease : LeaseResource}
    (hclock : w.now.SinceEpoch) (hnonneg : 0 ≤ w.leaseDuration.nanos)
    (hfits : w.leaseDuration.numSeconds < 2147483648) : w.finish lease ≠ .error .panic := by
  intro hpanic
  obtain ⟨hlower, hupper⟩ := hclock
  have hnanos := TimeDelta.nanos_lt_of_numSeconds hnonneg hfits
  unfold ClaimWrite.finish at hpanic
  split at hpanic
  · rename_i hadd
    rw [DateTime.checkedAdd, dif_pos (by omega)] at hadd
    cases hadd
  · split at hpanic
    · cases hpanic
    · cases hpanic

/-- The subtraction panics exactly if the grace period is a `chrono::Duration` and
reaches back too far. -/
theorem checkedSub_graceDelta_eq_none_iff {t : DateTime} {params : ClaimParams} :
    t.checkedSub params.graceDelta = none ↔
      ∃ grace, TimeDelta.fromStd params.renewGracePeriod = some grace ∧
        t.nanos - grace.nanos < -8334601228800000000000 := by
  rw [ClaimParams.graceDelta]
  cases hgrace : TimeDelta.fromStd params.renewGracePeriod with
  | none =>
      rw [Option.getD_none, DateTime.checkedSub_zero]
      simp
  | some grace =>
      rw [Option.getD_some, DateTime.checkedSub_eq_none_iff (TimeDelta.fromStd_nonneg hgrace)]
      simp

/-! ## Runs -/

namespace Node

/-- The write that is awaited was made at a time when the clock was right, and its
duration is not negative. -/
def WritesInRange (node : Node) : Prop :=
  ∀ id write params, node.pc = .claiming id write params →
    write.now.SinceEpoch ∧ 0 ≤ write.leaseDuration.nanos

theorem Next.writesInRange {profile : Profile} {node node' : Node} {e : NodeEvent}
    (hstep : Next profile node e node') (hclock : e.now.SinceEpoch) :
    node'.WritesInRange := by
  obtain ⟨effect, heffect, -, rfl⟩ := hstep
  intro id write params hpc
  have hsend : effect.send = some (.patch (.claim write)) := by
    have hawaits := step_awaits heffect
    rw [awaits_claim_iff.mpr ⟨params, hpc⟩] at hawaits
    obtain ⟨body, hbody, hpair⟩ := Option.map_eq_some_iff.mp hawaits.symm
    rw [hbody, (Prod.mk.inj hpair).2]
  have hsends := step_sends heffect hsend
  generalize e.input = input at hsends
  cases hsends with
  | acquire _ _ hwrite =>
      obtain ⟨transitions, -, rfl⟩ := Option.map_eq_some_iff.mp hwrite
      exact ⟨hclock, ClaimParams.leaseDelta_nonneg _⟩
  | renew => exact ⟨hclock, ClaimParams.leaseDelta_nonneg _⟩

section Runs

variable {profile : Profile} {node : Node} {events : List NodeEvent} {e : NodeEvent}

theorem writesInRange_of_run
    (hrun : Run (fun node e node' => Next profile node e node' ∧ node.Admits e)
      ⟨none, .idle⟩ events node) : node.WritesInRange := by
  refine hrun.invariant WritesInRange ?_ ?_
  · intro node e node' _ hstep
    exact hstep.1.writesInRange hstep.2.clock
  · intro id write params hpc
    cases hpc

/-- In every run of a manager among clocks and responses that can be expected, a date
leaves the range exactly where the grace period of an own claim reaches back too far. -/
theorem date_overflow_iff
    (hrun : Run (fun node e node' => Next profile node e node' ∧ node.Admits e)
      ⟨none, .idle⟩ events node) (hadmits : node.Admits e) :
    ¬ node.Overflows e ↔ ¬ node.GraceOverflows e := by
  have hwrites := writesInRange_of_run hrun
  rw [not_iff_not]
  constructor
  · intro hoverflows
    unfold Overflows at hoverflows
    split at hoverflows
    · rename_i claimant params m hpc hm hinput
      obtain ⟨claim, hclaim, hholder, hnone⟩ := ensureClaimedHead_eq_panic_iff.mp hoverflows
      obtain ⟨grace, hgrace, hearly⟩ := checkedSub_graceDelta_eq_none_iff.mp hnone
      exact ⟨m, claimant, params, claim, grace, hm, hpc, hinput, hclaim, hholder, hgrace,
        hearly⟩
    · rename_i id write params m lease hpc hm hinput
      obtain ⟨hclock, hnonneg⟩ := hwrites _ _ _ hpc
      have hfits := (hadmits.write _ _ _ _ hpc hinput).2
      exact absurd hoverflows (ClaimWrite.finish_ne_panic hclock hnonneg hfits)
    · rename_i result hpc hinput
      refine absurd hoverflows (get_ne_panic ?_)
      rintro lease spec rfl hspec
      exact hadmits.response lease spec hinput hspec
    · exact hoverflows.elim
  · rintro ⟨m, claimant, params, claim, grace, hm, hpc, hinput, hclaim, hholder, hgrace, hearly⟩
    unfold Overflows
    rw [hm, hpc, hinput]
    exact ensureClaimedHead_eq_panic_iff.mpr ⟨claim, hclaim, hholder,
      checkedSub_graceDelta_eq_none_iff.mpr ⟨grace, hgrace, hearly⟩⟩

/-- Alice's manager reads her claim, and she calls `ensure_claimed`. -/
def aliceReturns (params : ClaimParams) : List NodeEvent :=
  [⟨exampleNow, 0, .call .init, none⟩,
    ⟨exampleNow, 1, .response (.ok ⟨some "2", some aliceLease⟩), some (.init (.ok ()))⟩,
    ⟨exampleNow, 2, .call (.ensureClaimed "alice" params), none⟩]

theorem aliceLease_admitted : aliceLease.Admitted := by
  constructor
  · intro t ht
    obtain rfl := Option.some.inj ht
    exact ⟨by decide, by decide⟩
  · intro secs hsecs
    obtain rfl := Option.some.inj hsecs
    decide

theorem exampleNow_sinceEpoch : exampleNow.SinceEpoch := by
  constructor <;> decide

/-- An event without a response to a write. -/
theorem admits_of_idle {node : Node} {id : Nat} {input : Input} {ret : Option Return}
    (hpc : ∀ id write params, node.pc ≠ .claiming id write params)
    (hresponse : ∀ lease spec, input = .response (.ok lease) → lease.spec = some spec →
      spec.Admitted) : node.Admits ⟨exampleNow, id, input, ret⟩ where
  clock := exampleNow_sinceEpoch
  response := hresponse
  write := fun id write params _ hclaiming => absurd hclaiming (hpc id write params)

theorem aliceReturns_run (profile : Profile) (params : ClaimParams) :
    ∃ m claim, Run (fun node e node' => Next profile node e node' ∧ node.Admits e)
        ⟨none, .idle⟩ (aliceReturns params) ⟨some m, .ensuring "alice" params⟩ ∧
      m.state.claim = some claim ∧ claim.holder = "alice" ∧
      claim.expiry.nanos = 1700000030000000000 := by
  refine ⟨_, _, .cons ⟨⟨_, rfl, rfl, rfl⟩, admits_of_idle (by simp) (by simp)⟩
    (.cons ⟨⟨_, rfl, rfl, rfl⟩, admits_of_idle (by simp) ?_⟩
    (.cons ⟨⟨_, rfl, rfl, rfl⟩, admits_of_idle (by simp) (by simp)⟩ (.nil _))),
    rfl, rfl, rfl⟩
  intro lease spec hlease hspec
  obtain rfl := Except.ok.inj (Input.response.inj hlease)
  obtain rfl := Option.some.inj hspec
  exact aliceLease_admitted

/-- With the default parameters alice's call computes no date out of the range. -/
theorem default_grace_in_range :
    ∃ node, Run (fun node e node' => Next .release node e node' ∧ node.Admits e)
        ⟨none, .idle⟩ (aliceReturns default) node ∧
      ¬ node.Overflows ⟨exampleNow, 3, .resume, none⟩ := by
  obtain ⟨m, claim, hrun, hclaim, -, hexpiry⟩ := aliceReturns_run .release default
  refine ⟨_, hrun, (date_overflow_iff hrun (admits_of_idle (by simp) (by simp))).mpr ?_⟩
  rintro ⟨m', claimant, params, claim', grace, hm', hpc, -, hclaim', -, hgrace, hearly⟩
  obtain rfl := Option.some.inj hm'
  obtain ⟨rfl, rfl⟩ := Pc.ensuring.inj hpc
  rw [hclaim] at hclaim'
  obtain rfl := Option.some.inj hclaim'
  have hnanos := TimeDelta.fromStd_nanos hgrace
  have hsecond : (default : ClaimParams).renewGracePeriod.toNanos = 1000000000 := rfl
  omega

/-- A grace period of more than 300 000 years. -/
def ancientGrace : ClaimParams := ⟨Duration.fromSecs 30, Duration.fromSecs 10000000000000⟩

/-- Alice's call panics at the top of its loop. -/
theorem ancient_grace_overflows :
    ∃ node node', Run (fun node e node' => Next .release node e node' ∧ node.Admits e)
        ⟨none, .idle⟩ (aliceReturns ancientGrace) node ∧
      node.Overflows ⟨exampleNow, 3, .resume, some (.ensureClaimed (.error .panic))⟩ ∧
      Next .release node ⟨exampleNow, 3, .resume, some (.ensureClaimed (.error .panic))⟩
        node' := by
  obtain ⟨m, claim, hrun, hclaim, hholder, hexpiry⟩ := aliceReturns_run .release ancientGrace
  have hpanic : ensureClaimedHead exampleNow m.state "alice" ancientGrace = .panic := by
    refine ensureClaimedHead_eq_panic_iff.mpr ⟨claim, hclaim, hholder,
      checkedSub_graceDelta_eq_none_iff.mpr ⟨⟨10000000000000000000000, by decide, by decide⟩,
        by decide, ?_⟩⟩
    change claim.expiry.nanos - 10000000000000000000000 < _
    omega
  have hstep : step .release exampleNow 3 ⟨some m, .ensuring "alice" ancientGrace⟩ .resume =
      some ⟨⟨some m, .idle⟩, none, some (.ensureClaimed (.error .panic))⟩ := by
    simp only [step, resume, hpanic]
  exact ⟨_, ⟨some m, .idle⟩, hrun, hpanic, _, hstep, rfl, rfl⟩

end Runs

end Node

end Lease
end Kubert
