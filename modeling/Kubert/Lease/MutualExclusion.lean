import Kubert.Lease.Takeover

/-!
# Mutual exclusion, and the read that breaks it

A manager believes in a claim when it has the claim cached, or when the answer
that will make it cache the claim has been given and is on its way.  Mutual
exclusion rests on every unexpired belief of a manager in its own claim being
*backed*: the server records the claim at least as long, and no patch of the
same manager that could be applied next would end it sooner.

Everything the code does keeps beliefs backed, with one exception.  A patch
that the manager has given up on (after ten seconds, say) may still be under
way when the manager reads the resource again, at the version that the patch
was made against.  The read brings the claim back into the cache, and then the
late patch clears or shortens it on the server.  `SafeRead` says of a state that
answering the manager's read does not have this effect.  An answer that the manager
does not wait for any more makes it believe in nothing (`believes_of_answer`).

The clock is read in microseconds and durations are whole seconds, so what is
published is exactly what the manager caches.
-/

namespace Kubert
namespace Lease

open Foundation

variable {ι : Type}

/-- Every manager is called with its own claimant and its own parameters. -/
def servesWith (claimantOf : ι → String) (paramsOf : ι → ClaimParams) :
    ι → Op → Prop
  | i, .ensureClaimed claimant params =>
      claimant = claimantOf i ∧ params = paramsOf i
  | i, .vacate claimant => claimant = claimantOf i
  | _, _ => True

theorem serves_of_servesWith {claimantOf : ι → String}
    {paramsOf : ι → ClaimParams} (i : ι) (op : Op)
    (hop : servesWith claimantOf paramsOf i op) : serves claimantOf i op := by
  cases op with
  | ensureClaimed claimant params => exact hop.1
  | vacate claimant => exact hop
  | init => trivial
  | withDiagnostics d => trivial
  | sync => trivial

/-! ## Beliefs and what backs them -/

/-- The manager has a claim cached, or is about to cache it. -/
inductive Believes (s : Sys ι) (i : ι) : String → Int → Prop
  | cached {m : LeaseManager} {claim : Claim}
      (hm : (s.nodes i).manager = some m) (hclaim : m.state.claim = some claim) :
      Believes s i claim.holder claim.expiry.nanos
  | read {id : Nat} {lease : LeaseResource} {holder : String} {expiry : Int}
      (hawait : (s.nodes i).awaits = some (id, .get))
      (hresponse : ⟨⟨id, i, .get⟩, .ok lease⟩ ∈ s.responses)
      (hholder : holderOf lease.spec = some holder)
      (hexpiry : expiryOf lease.spec = some expiry) :
      Believes s i holder expiry
  | wrote {id : Nat} {write : ClaimWrite} {lease : LeaseResource}
      (hawait : (s.nodes i).awaits = some (id, .patch (.claim write)))
      (hresponse :
        ⟨⟨id, i, .patch (.claim write)⟩, .ok lease⟩ ∈ s.responses) :
      Believes s i write.claimant (write.now.nanos + write.leaseDuration.nanos)

/-- The resource records a claim of this claimant that lasts at least this
long. -/
def Covers (claimant : String) (expiry : Int) (spec : Option LeaseSpec) : Prop :=
  holderOf spec = some claimant ∧ ∃ e, expiryOf spec = some e ∧ expiry ≤ e

/-- No patch of the manager that the server could apply now would end the claim
sooner. -/
def Endures (s : Sys ι) (i : ι) (claimant : String) (expiry : Int) : Prop :=
  ∀ req ∈ s.requests, req.sender = i → ∀ call spec, req.body = .patch call →
    call.version = s.server.version →
    call.patch.applyTo s.server.value = some spec →
    Covers claimant expiry (some spec)

/-- If the server records an unexpired claim of the manager's own claimant, then
no patch of the manager that is still under way would end it sooner. -/
def SafeRead (claimantOf : ι → String) (s : Sys ι) (i : ι) : Prop :=
  ∀ expiry, holderOf s.server.value = some (claimantOf i) →
    expiryOf s.server.value = some expiry → s.now.nanos < expiry →
    Endures s i (claimantOf i) expiry

/-- The clock is read in microseconds. -/
def Action.InMicros : Action ι → Prop
  | .tick t => t.Micros
  | _ => True

/-- The steps of managers that serve one claimant each with fixed parameters, on
a clock that is read in microseconds. -/
def Sys.StepServing [DecidableEq ι] (profile : Profile)
    (claimantOf : ι → String) (paramsOf : ι → ClaimParams) (s : Sys ι)
    (a : Action ι) (t : Sys ι) : Prop :=
  Sys.StepWith profile (servesWith claimantOf paramsOf) s a t ∧ a.InMicros

/-- Of these, the steps in which a read that the manager waits for is answered in safe
states only. -/
def Sys.StepSafely [DecidableEq ι] (profile : Profile)
    (claimantOf : ι → String) (paramsOf : ι → ClaimParams) (s : Sys ι)
    (a : Action ι) (t : Sys ι) : Prop :=
  Sys.StepServing profile claimantOf paramsOf s a t ∧
    ∀ req, a = .serve req → (s.nodes req.sender).awaits = some (req.id, req.body) →
      SafeRead claimantOf s req.sender

/-- A patch says what the manager it comes from would say: its claimant, its
duration, and a time in microseconds. -/
def Faithful (claimantOf : ι → String) (paramsOf : ι → ClaimParams) (i : ι)
    (call : PatchCall) : Prop :=
  call.claimant = claimantOf i ∧
    match call with
    | .claim write =>
        write.now.Micros ∧ write.leaseDuration = (paramsOf i).leaseDelta
    | .vacate _ _ => True

/-- The invariant: every unexpired belief of a manager in its own claim is
backed. -/
structure Exclusive (claimantOf : ι → String) (paramsOf : ι → ClaimParams)
    (s : Sys ι) : Prop where
  knows : Knowledge (freedom claimantOf) (servesWith claimantOf paramsOf) s
  micros : s.now.Micros
  numbered : s.Numbered
  faithful : ∀ req ∈ s.requests, ∀ call, req.body = .patch call →
    Faithful claimantOf paramsOf req.sender call
  backed : ∀ i expiry, Believes s i (claimantOf i) expiry →
    s.now.nanos < expiry →
    Covers (claimantOf i) expiry s.server.value ∧
      Endures s i (claimantOf i) expiry

/-! ## What applied patches do to claims -/

/-- With whole seconds and a clock read in microseconds, the published expiry is
the local one. -/
theorem published_eq_local {write : ClaimWrite} {params : ClaimParams}
    (hparams : write.leaseDuration = params.leaseDelta)
    (hwhole : params.leaseDuration.WholeSeconds) (hmicros : write.now.Micros)
    (hfits : write.leaseDuration.numSeconds < 2147483648) :
    write.now.toMicroTime.nanos + write.leaseDuration.numSeconds * 1000000000 =
      write.now.nanos + write.leaseDuration.nanos := by
  rw [hparams] at hfits ⊢
  rw [DateTime.toMicroTime_of_micros hmicros,
    (ClaimParams.numSeconds_eq_leaseDelta hwhole hfits).1]

section Applied

variable {profile : Profile} {claimantOf : ι → String}
  {paramsOf : ι → ClaimParams} {s : Sys ι} {req : Request ι}

/-- An applied claim is recorded exactly as the manager will cache it. -/
theorem recorded_of_applied (hinv : Exclusive claimantOf paramsOf s)
    (hwhole : ∀ i, (paramsOf i).leaseDuration.WholeSeconds)
    {write : ClaimWrite} {spec : LeaseSpec} (hmem : req ∈ s.requests)
    (hbody : req.body = .patch (.claim write))
    (hversion : write.version = s.server.version)
    (happly : write.patch.applyTo s.server.value = some spec) :
    Covers write.claimant (write.now.nanos + write.leaseDuration.nanos)
      (some spec) := by
  have hsent := (hinv.knows.sent req hmem _ hbody).elim hversion
  have hheld : HeldUntil write.claimant _ (some spec) :=
    (holding_sound (ι := ι) .release anyCall).apply hsent.1 happly
  obtain ⟨-, hmicros, hduration⟩ := hinv.faithful req hmem _ hbody
  obtain ⟨hexpiry, hfits⟩ := ClaimWrite.applyTo_expiry happly
  rw [published_eq_local hduration (hwhole req.sender) hmicros hfits] at hexpiry
  exact ⟨hheld.1, _, hexpiry, le_refl _⟩

/-- While a claim is recorded and unexpired, no patch of another claimant can be
applied. -/
theorem not_applied_to_foreign_claim (hinv : Exclusive claimantOf paramsOf s)
    {call : PatchCall} {claimant : String} {expiry : Int}
    (hmem : req ∈ s.requests) (hbody : req.body = .patch call)
    (hversion : call.version = s.server.version)
    (hcovers : Covers claimant expiry s.server.value)
    (hunexpired : s.now.nanos < expiry) : call.claimant = claimant := by
  obtain ⟨hholding, hfree⟩ := (hinv.knows.sent req hmem call hbody).elim hversion
  obtain ⟨hholder, e, hexpiry, hle⟩ := hcovers
  have hrecorded : holderOf s.server.value = some call.claimant →
      call.claimant = claimant := by
    intro hsame
    rw [hholder] at hsame
    exact (Option.some.inj hsame).symm
  cases call with
  -- The two blind patches are made for the recorded holder.
  | vacate version owner => exact hrecorded hholding
  | claim write =>
      cases hkind : write.kind with
      | renew => exact hrecorded (hholding.2 hkind)
      | acquire =>
          by_contra hne
          have hacquire : (PatchCall.claim write).isAcquire = true := by
            simp [PatchCall.isAcquire, hkind]
          have hreached := hfree hacquire claimant e hholder (Ne.symm hne) hexpiry
          omega

/-- The renewal that a manager sends does not cut its claim short: it is sent at
most a grace period before the expiry, and asks for at least that much. -/
theorem covers_of_renewal {now : DateTime} {state : State} {claim : Claim}
    {claimant : String} {params : ClaimParams} {write : ClaimWrite}
    {before : Option LeaseSpec} {spec : LeaseSpec}
    (hwhole : params.leaseDuration.WholeSeconds)
    (hgrace : params.renewGracePeriod.toNanos ≤ params.leaseDuration.toNanos)
    (hmicros : now.Micros) (hnow : write.now = now) (hkind : write.kind = .renew)
    (hduration : write.leaseDuration = params.leaseDelta)
    (hhead : ensureClaimedHead now state claimant params = .renew)
    (hclaim : state.claim = some claim)
    (hholder : holderOf before = some claimant)
    (happly : write.patch.applyTo before = some spec) :
    Covers claimant claim.expiry.nanos (some spec) := by
  subst hnow
  obtain ⟨hexpiry, hfits⟩ := ClaimWrite.applyTo_expiry happly
  rw [published_eq_local hduration hwhole hmicros hfits] at hexpiry
  refine ⟨?_, _, hexpiry, ?_⟩
  · rw [(ClaimWrite.applyTo_renew hkind happly).1]
    exact hholder
  · obtain ⟨c, renewAt, hc, -, hsub, hdue⟩ :=
      ensureClaimedHead_eq_renew_iff.mp hhead
    rw [hclaim] at hc
    obtain rfl := Option.some.inj hc
    rw [hduration] at hfits ⊢
    -- The new expiry is `now + duration`, the old one at most `now + grace`.
    have hrenewAt := DateTime.checkedSub_nanos hsub
    have hgraceDelta := params.graceDelta_le
    have hlocal := (ClaimParams.numSeconds_eq_leaseDelta hwhole hfits).2
    omega

/-- What a manager with an own claim in its cache has just sent is the renewal of
that claim: `acquire` is not reached with an own claim, and `vacate` has dropped
it. -/
theorem covers_of_sent (hwhole : ∀ i, (paramsOf i).leaseDuration.WholeSeconds)
    (hgrace : ∀ i, (paramsOf i).renewGracePeriod.toNanos ≤
      (paramsOf i).leaseDuration.toNanos)
    {i : ι} {input : Input} {effect : Effect} {call : PatchCall}
    {m : LeaseManager} {claim : Claim} {spec : LeaseSpec}
    (hmicros : s.now.Micros)
    (hstep : (s.nodes i).step profile s.now s.nextId input = some effect)
    (hok : effect.node.PcOk (servesWith claimantOf paramsOf i) s.now)
    (hsend : effect.send = some (.patch call))
    (hm : effect.node.manager = some m) (hclaim : m.state.claim = some claim)
    (hown : claim.holder = claimantOf i)
    (hholder : holderOf s.server.value = some (claimantOf i))
    (happly : call.patch.applyTo s.server.value = some spec) :
    Covers (claimantOf i) claim.expiry.nanos (some spec) := by
  have hawaits : effect.node.awaits = some (s.nextId, .patch call) := by
    rw [Node.step_awaits hstep, hsend]
    rfl
  have hokm := hok m hm
  cases call with
  | vacate version claimant =>
      -- A vacate in flight has emptied the cache.
      rw [Node.awaits_vacate_iff.mp hawaits] at hokm
      rw [hokm.2.2] at hclaim
      cases hclaim
  | claim write =>
      obtain ⟨params, hpc⟩ := Node.awaits_claim_iff.mp hawaits
      rw [hpc] at hokm
      obtain ⟨⟨hclaimant, rfl⟩, hhead, -, hduration⟩ := hokm
      rw [hclaimant] at hhead
      cases hkind : write.kind with
      | acquire =>
          rw [hkind] at hhead
          -- The loop head does not go on to `acquire` with an own claim.
          obtain ⟨hforeign, -⟩ :=
            ensureClaimedHead_eq_acquire_iff.mp hhead claim hclaim
          exact absurd hown hforeign
      | renew =>
          rw [hkind] at hhead
          exact covers_of_renewal (hwhole i) (hgrace i) hmicros
            (Node.step_sends_now hstep hsend) hkind hduration hhead hclaim
            hholder happly

/-- What a manager sends is faithful to its claimant and parameters. -/
theorem faithful_of_sent (hmicros : s.now.Micros) {a : Action ι} {i : ι}
    {input : Input} {effect : Effect} {call : PatchCall}
    (hok : (s.nodes i).PcOk (servesWith claimantOf paramsOf i) s.now)
    (hfeeds : s.Feeds a i input) (hobeys : a.Obeys (servesWith claimantOf paramsOf))
    (hstep : (s.nodes i).step profile s.now s.nextId input = some effect)
    (hsend : effect.send = some (.patch call)) :
    Faithful claimantOf paramsOf i call := by
  cases Node.step_sends hstep hsend with
  | @acquire claimant params m write hpc hm hwrite =>
      have hokm := hok m hm
      rw [hpc] at hokm
      obtain ⟨⟨rfl, rfl⟩, -⟩ := hokm
      obtain ⟨transitions, -, rfl⟩ := Option.map_eq_some_iff.mp hwrite
      exact ⟨rfl, hmicros, rfl⟩
  | @renew claimant params m hpc hm =>
      have hokm := hok m hm
      rw [hpc] at hokm
      obtain ⟨⟨rfl, rfl⟩, -⟩ := hokm
      exact ⟨rfl, hmicros, rfl⟩
  | @vacate claimant m claim hm hclaim hcurrent hholder =>
      exact ⟨hfeeds.obeys hobeys rfl, trivial⟩

end Applied

/-! ## Where beliefs come from -/

/-- Beliefs depend on the manager's own node and on the answers. -/
theorem Believes.congr {s t : Sys ι} {i : ι} {holder : String} {expiry : Int}
    (hbelieves : Believes t i holder expiry) (hnode : t.nodes i = s.nodes i)
    (hresponses : t.responses = s.responses) : Believes s i holder expiry := by
  cases hbelieves with
  | cached hm hclaim =>
      rw [hnode] at hm
      exact Believes.cached hm hclaim
  | read hawait hresponse hholder hexpiry =>
      rw [hnode] at hawait
      rw [hresponses] at hresponse
      exact Believes.read hawait hresponse hholder hexpiry
  | wrote hawait hresponse =>
      rw [hnode] at hawait
      rw [hresponses] at hresponse
      exact Believes.wrote hawait hresponse

variable [DecidableEq ι]

/-- After its own step a manager believes only in what it has cached, and it
believed in that before: the answer to a request that it has just sent cannot
be there yet. -/
theorem believes_of_advance_self {profile : Profile} {s : Sys ι}
    {a : Action ι} {i : ι} {input : Input} {effect : Effect} {holder : String}
    {expiry : Int} (hnumbered : s.Numbered)
    (hfeeds : s.Feeds a i input)
    (hstep : (s.nodes i).step profile s.now s.nextId input = some effect)
    (hbelieves : Believes (s.advance i effect) i holder expiry) :
    Believes s i holder expiry ∧
      ∃ m claim, effect.node.manager = some m ∧ m.state.claim = some claim ∧
        claim.holder = holder ∧ claim.expiry.nanos = expiry := by
  have hnode : (s.advance i effect).nodes i = effect.node := by
    simp [Sys.advance]
  cases hbelieves with
  | @cached m' claim hm' hclaim =>
      rw [hnode] at hm'
      refine ⟨?_, m', claim, hm', hclaim, rfl, rfl⟩
      have hchange := Node.step_stateChange hstep hm'
      generalize m'.state = state at hchange hclaim
      cases hchange with
      | kept hm => exact Believes.cached hm hclaim
      | dropped hm _ _ => cases hclaim
      | @read id caller lease _ hpc hget =>
          have hawaits := Node.awaits_get_iff.mpr ⟨_, hpc⟩
          obtain ⟨-, -, hread, -⟩ := get_ok hget
          obtain ⟨hholder, hexpiry, -⟩ := hread claim hclaim
          exact Believes.read hawaits (hfeeds.delivered hawaits) hholder hexpiry
      | @wrote id write params lease claim' newMeta hpc hfinish =>
          have hawaits := Node.awaits_claim_iff.mpr ⟨_, hpc⟩
          obtain ⟨-, -, hholder, hexpiry⟩ := ClaimWrite.finish_ok hfinish
          obtain rfl : claim' = claim := Option.some.inj hclaim
          rw [hholder, hexpiry]
          exact Believes.wrote hawaits (hfeeds.delivered hawaits)
  -- The awaited request has the number of this step, which no answer carries yet.
  | read hawait hresponse _ _ =>
      rw [hnode] at hawait
      obtain rfl := Node.step_awaits_id hstep hawait
      exact absurd (hnumbered.response _ hresponse) (lt_irrefl _)
  | wrote hawait hresponse =>
      rw [hnode] at hawait
      obtain rfl := Node.step_awaits_id hstep hawait
      exact absurd (hnumbered.response _ hresponse) (lt_irrefl _)

/-- A new answer makes its addressee, if it waits for it, believe in what was read, or
in the claim that was written; all other beliefs were there before. -/
theorem believes_of_answer {s : Sys ι} {req : Request ι}
    {result : Except Error LeaseResource} {i : ι} {holder : String}
    {expiry : Int} (hbelieves : Believes (s.answer req result) i holder expiry) :
    Believes s i holder expiry ∨
      (req.sender = i ∧ (s.nodes i).awaits = some (req.id, req.body) ∧
        ∃ lease, result = .ok lease ∧
        ((req.body = .get ∧ holderOf lease.spec = some holder ∧
            expiryOf lease.spec = some expiry) ∨
          ∃ write : ClaimWrite, req.body = .patch (.claim write) ∧
            holder = write.claimant ∧
            expiry = write.now.nanos + write.leaseDuration.nanos)) := by
  cases hbelieves with
  | cached hm hclaim => exact Or.inl (Believes.cached hm hclaim)
  | @read id lease _ _ hawait hresponse hholder hexpiry =>
      rcases List.mem_cons.mp hresponse with hnew | hold
      · obtain ⟨rfl, rfl⟩ := Response.mk.inj hnew
        exact Or.inr ⟨rfl, hawait, lease, rfl, Or.inl ⟨rfl, hholder, hexpiry⟩⟩
      · exact Or.inl (Believes.read hawait hold hholder hexpiry)
  | @wrote id write lease hawait hresponse =>
      rcases List.mem_cons.mp hresponse with hnew | hold
      · obtain ⟨rfl, rfl⟩ := Response.mk.inj hnew
        exact Or.inr ⟨rfl, hawait, lease, rfl, Or.inr ⟨write, rfl, rfl, rfl⟩⟩
      · exact Or.inl (Believes.wrote hawait hold)

/-! ## The invariant along runs -/

namespace Exclusive

variable {profile : Profile} {claimantOf : ι → String}
  {paramsOf : ι → ClaimParams} {s : Sys ι}

omit [DecidableEq ι] in
/-- Nothing is believed at the start. -/
theorem initial {now : DateTime} (hmicros : now.Micros) (version : String)
    (spec : Option LeaseSpec) :
    Exclusive claimantOf paramsOf (Sys.initial now version spec : Sys ι) where
  knows := Knowledge.initial now version spec
  micros := hmicros
  numbered := Sys.Numbered.initial now version spec
  faithful := by
    intro req hreq
    cases hreq
  backed := by
    intro i expiry hbelieves
    generalize claimantOf i = holder at hbelieves
    cases hbelieves with
    | cached hm => cases hm
    | read hawait => cases hawait
    | wrote hawait => cases hawait

omit [DecidableEq ι] in
/-- Time can only end claims. -/
theorem tick (hinv : Exclusive claimantOf paramsOf s) {t : DateTime}
    (hle : s.now ≤ t) (hmicros : t.Micros) :
    Exclusive claimantOf paramsOf { s with now := t } where
  knows := hinv.knows.tick
    (freedom_sound .release claimantOf serves_of_servesWith) hle
  micros := hmicros
  numbered := ⟨hinv.numbered.request, hinv.numbered.response⟩
  faithful := hinv.faithful
  backed := by
    intro i expiry hbelieves hunexpired
    have hle' := (DateTime.le_def s.now t).mp hle
    have hbefore : s.now.nanos < expiry := lt_of_le_of_lt hle' hunexpired
    refine hinv.backed i expiry ?_ hbefore
    exact hbelieves.congr rfl rfl

/-- A step of a manager keeps beliefs backed: what it believes in it believed in
before, and what it sends is harmless to that. -/
theorem advance (hinv : Exclusive claimantOf paramsOf s)
    (hwhole : ∀ i, (paramsOf i).leaseDuration.WholeSeconds)
    (hgrace : ∀ i, (paramsOf i).renewGracePeriod.toNanos ≤
      (paramsOf i).leaseDuration.toNanos)
    {a : Action ι} {i : ι} {input : Input} {effect : Effect}
    (hfeeds : s.Feeds a i input) (hobeys : a.Obeys (servesWith claimantOf paramsOf))
    (hstep : (s.nodes i).step profile s.now s.nextId input = some effect) :
    Exclusive claimantOf paramsOf (s.advance i effect) := by
  have hknows := hinv.knows.advance
    (freedom_sound profile claimantOf serves_of_servesWith) hfeeds hobeys hstep
  refine ⟨hknows, hinv.micros, hinv.numbered.advance i effect, ?_, ?_⟩
  · intro req hreq call hbody
    rcases Sys.mem_advance_requests.mp hreq with hold | ⟨body, hsend, rfl⟩
    · exact hinv.faithful req hold call hbody
    · obtain rfl : body = .patch call := hbody
      exact faithful_of_sent hinv.micros (hinv.knows.pcOk i) hfeeds hobeys hstep hsend
  · intro j expiry hbelieves hunexpired
    by_cases hj : j = i
    · subst hj
      obtain ⟨hbefore, m, claim, hm, hclaim, hown, rfl⟩ :=
        believes_of_advance_self hinv.numbered hfeeds hstep hbelieves
      obtain ⟨hcovers, hendures⟩ := hinv.backed j _ hbefore hunexpired
      refine ⟨hcovers, ?_⟩
      intro req hreq hsender call spec hbody hversion happly
      rcases Sys.mem_advance_requests.mp hreq with hold | ⟨body, hsend, rfl⟩
      · exact hendures req hold hsender call spec hbody hversion happly
      · obtain rfl : body = .patch call := hbody
        have hok : effect.node.PcOk (servesWith claimantOf paramsOf j) s.now := by
          simpa [Sys.advance] using hknows.pcOk j
        exact covers_of_sent hwhole hgrace hinv.micros hstep hok hsend hm hclaim
          hown hcovers.1 happly
    · have hbefore : Believes s j (claimantOf j) expiry :=
        hbelieves.congr (by simp [Sys.advance, hj]) rfl
      obtain ⟨hcovers, hendures⟩ := hinv.backed j expiry hbefore hunexpired
      refine ⟨hcovers, ?_⟩
      intro req hreq hsender call spec hbody hversion happly
      rcases Sys.mem_advance_requests.mp hreq with hold | ⟨body, -, rfl⟩
      · exact hendures req hold hsender call spec hbody hversion happly
      · exact absurd hsender.symm hj

omit [DecidableEq ι] in
/-- Right after a write no patch under way can be applied. -/
theorem endures_write (hinv : Exclusive claimantOf paramsOf s) {version : String}
    (hnew : version ∉ s.server.issued) (spec : Option LeaseSpec) (i : ι)
    (claimant : String) (expiry : Int) :
    Endures { s with server := s.server.write version spec } i claimant expiry := by
  intro req hreq _ call spec' hbody hversion _
  have hissued := (hinv.knows.sent req hreq call hbody).1
  rw [hversion] at hissued
  exact absurd hissued hnew

omit [DecidableEq ι] in
/-- An applied patch keeps the beliefs that were there before it: those of its
sender because they endure, those of others because they are not claims of the
sender. -/
theorem write (hinv : Exclusive claimantOf paramsOf s)
    (hdistinct : Function.Injective claimantOf) {req : Request ι}
    {call : PatchCall} {version : String} {spec : LeaseSpec}
    (hmem : req ∈ s.requests) (hbody : req.body = .patch call)
    (hversion : call.version = s.server.version)
    (hnew : version ∉ s.server.issued)
    (happly : call.patch.applyTo s.server.value = some spec) :
    Exclusive claimantOf paramsOf
      { s with server := s.server.write version (some spec) } where
  knows := hinv.knows.write hnew (some spec)
  micros := hinv.micros
  numbered := ⟨hinv.numbered.request, hinv.numbered.response⟩
  faithful := hinv.faithful
  backed := by
    intro i expiry hbelieves hunexpired
    refine ⟨?_, hinv.endures_write hnew (some spec) i _ _⟩
    have hbefore : Believes s i (claimantOf i) expiry := hbelieves.congr rfl rfl
    obtain ⟨hcovers, hendures⟩ := hinv.backed i expiry hbefore hunexpired
    -- The patch comes from the one manager that serves the recorded holder.
    have hsame := not_applied_to_foreign_claim hinv hmem hbody hversion hcovers
      hunexpired
    rw [(hinv.faithful req hmem call hbody).1] at hsame
    exact hendures req hmem (hdistinct hsame) call spec hbody hversion happly

/-- An answer keeps beliefs backed if it is itself justified and the belief that
it gives rise to, when it is awaited, is backed. -/
theorem answer (hinv : Exclusive claimantOf paramsOf s) {req : Request ι}
    {result : Except Error LeaseResource} (hmem : req ∈ s.requests)
    (hknows : Knowledge (freedom claimantOf) (servesWith claimantOf paramsOf)
      (s.answer req result))
    (hbacked : (s.nodes req.sender).awaits = some (req.id, req.body) →
      ∀ lease expiry, result = .ok lease → s.now.nanos < expiry →
      ((req.body = .get ∧ holderOf lease.spec = some (claimantOf req.sender) ∧
          expiryOf lease.spec = some expiry) ∨
        ∃ write : ClaimWrite, req.body = .patch (.claim write) ∧
          expiry = write.now.nanos + write.leaseDuration.nanos) →
      Covers (claimantOf req.sender) expiry s.server.value ∧
        Endures s req.sender (claimantOf req.sender) expiry) :
    Exclusive claimantOf paramsOf (s.answer req result) where
  knows := hknows
  micros := hinv.micros
  numbered := hinv.numbered.answer hmem result
  faithful := fun r hr => hinv.faithful r (List.mem_of_mem_erase hr)
  backed := by
    intro i expiry hbelieves hunexpired
    have hback : Covers (claimantOf i) expiry s.server.value ∧
        Endures s i (claimantOf i) expiry := by
      rcases believes_of_answer hbelieves with
        hbefore | ⟨rfl, hawaits, lease, hlease, hread | ⟨write, hbody, -, hexpiry⟩⟩
      · exact hinv.backed i expiry hbefore hunexpired
      · exact hbacked hawaits lease expiry hlease hunexpired (Or.inl hread)
      · exact hbacked hawaits lease expiry hlease hunexpired
          (Or.inr ⟨write, hbody, hexpiry⟩)
    exact ⟨hback.1, fun r hr => hback.2 r (List.mem_of_mem_erase hr)⟩

/-- Every safe step keeps beliefs backed. -/
theorem step (hdistinct : Function.Injective claimantOf)
    (hwhole : ∀ i, (paramsOf i).leaseDuration.WholeSeconds)
    (hgrace : ∀ i, (paramsOf i).renewGracePeriod.toNanos ≤
      (paramsOf i).leaseDuration.toNanos)
    {t : Sys ι} {a : Action ι} (hinv : Exclusive claimantOf paramsOf s)
    (hstep : Sys.StepSafely profile claimantOf paramsOf s a t) :
    Exclusive claimantOf paramsOf t := by
  obtain ⟨⟨hstepWith, hmicros⟩, hsafe⟩ := hstep
  have hknows := hinv.knows.step
    (freedom_sound profile claimantOf serves_of_servesWith) hstepWith
  obtain ⟨hstep, hobeys⟩ := hstepWith
  obtain ⟨ret, hcases⟩ := hstep.cases
  cases hcases with
  | tick hle => exact hinv.tick hle hmicros
  | node hfeeds hnode => exact hinv.advance hwhole hgrace hfeeds hobeys hnode
  | @serve req hmem hbody =>
      refine hinv.answer hmem hknows ?_
      intro hawaits lease expiry hlease hunexpired hwhich
      obtain rfl := Except.ok.inj hlease
      -- Here the condition on reads is used: nothing in flight can harm the claim read.
      rcases hwhich with ⟨-, hholder, hexpiry⟩ | ⟨write, hpatch, -⟩
      · exact ⟨⟨hholder, expiry, hexpiry, le_refl _⟩,
          hsafe req rfl hawaits expiry hholder hexpiry hunexpired⟩
      · rw [hbody] at hpatch
        cases hpatch
  | @apply req version call spec hmem hbody hversion hnew happly =>
      have hwritten := hinv.write hdistinct hmem hbody hversion hnew happly
      refine hwritten.answer hmem hknows ?_
      intro _ lease expiry hlease hunexpired hwhich
      rcases hwhich with ⟨hget, -, -⟩ | ⟨write, hpatch, rfl⟩
      · rw [hbody] at hget
        cases hget
      · rw [hbody] at hpatch
        obtain rfl := Body.patch.inj hpatch
        have hcovers := recorded_of_applied hinv hwhole hmem hbody hversion happly
        have hclaimant : write.claimant = claimantOf req.sender :=
          (hinv.faithful req hmem _ hbody).1
        rw [hclaimant] at hcovers
        exact ⟨hcovers, hinv.endures_write hnew (some spec) _ _ _⟩
  | conflict hmem hbody hversion =>
      exact hinv.answer hmem hknows fun _ lease _ hlease => nomatch hlease
  | refuse hmem hcode =>
      exact hinv.answer hmem hknows fun _ lease _ hlease => nomatch hlease
  | lose hmem =>
      exact
        { knows := hknows
          micros := hinv.micros
          numbered := hinv.numbered.lose _
          faithful := fun r hr => hinv.faithful r (List.mem_of_mem_erase hr)
          backed := by
            intro i expiry hbelieves hunexpired
            obtain ⟨hcovers, hendures⟩ := hinv.backed i expiry
              (hbelieves.congr rfl rfl) hunexpired
            exact ⟨hcovers, fun r hr => hendures r (List.mem_of_mem_erase hr)⟩ }

end Exclusive

/-- What `claimed` returns on the manager is current for the claimant, at the
present clock reading. -/
def Sys.currentFor (s : Sys ι) (i : ι) (claimant : String) : Bool :=
  ((s.nodes i).manager.bind LeaseManager.claimed).any
    (·.isCurrentFor claimant s.now)

omit [DecidableEq ι] in
/-- A manager whose claim is current believes in it. -/
theorem believes_of_currentFor {s : Sys ι} {i : ι} {claimant : String}
    (hcurrent : s.currentFor i claimant = true) :
    ∃ expiry, Believes s i claimant expiry ∧ s.now.nanos < expiry := by
  unfold Sys.currentFor at hcurrent
  obtain ⟨claim, hclaimed, hclaim⟩ := (Option.any_eq_true _ _).mp hcurrent
  obtain ⟨m, hm, hstate⟩ := Option.bind_eq_some_iff.mp hclaimed
  obtain ⟨rfl, hunexpired⟩ := (claim.isCurrentFor_iff _ _).mp hclaim
  exact ⟨claim.expiry.nanos, Believes.cached hm hstate, hunexpired⟩

/-- Managers that serve distinct claimants, each with parameters of its own whose
duration is a whole number of seconds and no shorter than the grace period: in
every state of every run in which the reads that managers wait for are answered only in
safe states, no two managers have a current claim of their own. -/
theorem single_current_claim (profile : Profile) (claimantOf : ι → String)
    (paramsOf : ι → ClaimParams) (hdistinct : Function.Injective claimantOf)
    (hwhole : ∀ i, (paramsOf i).leaseDuration.WholeSeconds)
    (hgrace : ∀ i, (paramsOf i).renewGracePeriod.toNanos ≤
      (paramsOf i).leaseDuration.toNanos)
    {now : DateTime} (hmicros : now.Micros) {version : String}
    {spec : Option LeaseSpec} {actions : List (Action ι)} {s : Sys ι}
    (hrun : Run (Sys.StepSafely profile claimantOf paramsOf)
      (Sys.initial now version spec) actions s)
    {i j : ι} (hne : claimantOf i ≠ claimantOf j) :
    ¬ (s.currentFor i (claimantOf i) = true ∧
      s.currentFor j (claimantOf j) = true) := by
  rintro ⟨hi, hj⟩
  have hinv : Exclusive claimantOf paramsOf s :=
    hrun.invariant (Exclusive claimantOf paramsOf)
      (fun _ _ _ hinv hstep => hinv.step hdistinct hwhole hgrace hstep)
      (Exclusive.initial hmicros version spec)
  obtain ⟨expiryI, hbelievesI, hunexpiredI⟩ := believes_of_currentFor hi
  obtain ⟨expiryJ, hbelievesJ, hunexpiredJ⟩ := believes_of_currentFor hj
  have hholderI := (hinv.backed i expiryI hbelievesI hunexpiredI).1.1
  have hholderJ := (hinv.backed j expiryJ hbelievesJ hunexpiredJ).1.1
  rw [hholderI] at hholderJ
  exact hne (Option.some.inj hholderJ)

/-! ## A safe run, and the unsafe read -/

omit [DecidableEq ι] in
/-- A read is safe when no patch of the manager is under way. -/
theorem safeRead_of_quiet {claimantOf : ι → String} {s : Sys ι} {i : ι}
    (hquiet : ∀ req ∈ s.requests, req.sender = i → req.body = .get) :
    SafeRead claimantOf s i := by
  intro expiry _ _ _ req hreq hsender call spec hbody
  rw [hquiet req hreq hsender] at hbody
  cases hbody

/-- One step, if it does not answer a read of a manager with a patch under
way. -/
def Sys.stepQuietly? (profile : Profile) (s : Sys ι) (a : Action ι) :
    Option (Sys ι) :=
  match a with
  | .serve req =>
      if ∀ r ∈ s.requests, r.sender = req.sender → r.body = .get then
        s.step? profile a
      else none
  | a => s.step? profile a

theorem stepSafely_of_stepQuietly {profile : Profile} {claimantOf : ι → String}
    {paramsOf : ι → ClaimParams} {s t : Sys ι} {a : Action ι}
    (hstep : s.stepQuietly? profile a = some t)
    (hobeys : a.Obeys (servesWith claimantOf paramsOf)) (hmicros : a.InMicros) :
    Sys.StepSafely profile claimantOf paramsOf s a t := by
  unfold Sys.stepQuietly? at hstep
  split at hstep
  · rename_i req
    split at hstep
    · rename_i hquiet
      refine ⟨⟨⟨hstep, hobeys⟩, hmicros⟩, ?_⟩
      intro r hr _
      obtain rfl := Action.serve.inj hr
      exact safeRead_of_quiet hquiet
    · cases hstep
  · rename_i hother
    refine ⟨⟨⟨hstep, hobeys⟩, hmicros⟩, ?_⟩
    intro r hr _
    exact absurd hr (hother r)

/-- Both managers use the default parameters. -/
def exampleParams : Bool → ClaimParams := fun _ => default

theorem exampleClaimant_injective : Function.Injective exampleClaimant := by
  intro i j h
  cases i <;> cases j <;> first | rfl | exact absurd h (by decide)

theorem exampleParams_grace (i : Bool) :
    (exampleParams i).renewGracePeriod.toNanos ≤
      (exampleParams i).leaseDuration.toNanos := by
  cases i <;> decide

theorem exampleNow_micros : exampleNow.Micros := by
  unfold DateTime.Micros
  decide

/-- Alice claims the lease, and bob reads it. -/
def bobReads : List (Action Bool) :=
  aliceClaims ++
    [.call true .init, .serve ⟨6, true, .get⟩,
      .deliver true (.ok ⟨some "2", some aliceLease⟩)]

/-- Bob has alice's claim cached, and it is current, but not for him. -/
theorem alice_current_claim_alone :
    ∃ s : Sys Bool,
      Run (Sys.StepSafely .release exampleClaimant exampleParams) exampleStart
        bobReads s ∧
      s.currentFor false "alice" = true ∧ s.currentFor true "alice" = true ∧
      ¬ (s.currentFor false "alice" = true ∧ s.currentFor true "bob" = true) := by
  obtain ⟨s, hs⟩ := Option.isSome_iff_exists.mp
    (show (execAll (Sys.stepQuietly? .release) exampleStart
      bobReads).isSome = true by decide +kernel)
  have hallowed : ∀ a ∈ bobReads,
      a.Obeys (servesWith exampleClaimant exampleParams) ∧ a.InMicros := by
    simp [bobReads, aliceClaims, Action.Obeys, Action.InMicros, servesWith,
      exampleClaimant, exampleParams]
  have hrun : Run (Sys.StepSafely .release exampleClaimant exampleParams)
      exampleStart bobReads s := by
    refine ((run_of_execAll (fun _ _ _ h => h) hs).restrict hallowed).mono ?_
    intro s a t hstep
    exact stepSafely_of_stepQuietly hstep.1 hstep.2.1 hstep.2.2
  refine ⟨s, hrun, ?_, ?_, ?_⟩
  · exact eq_of_execAll_map (fun s => s.currentFor false "alice") (b := true) hs
      (by decide +kernel)
  · exact eq_of_execAll_map (fun s => s.currentFor true "alice") (b := true) hs
      (by decide +kernel)
  · exact single_current_claim .release exampleClaimant exampleParams
      exampleClaimant_injective (fun _ => rfl) exampleParams_grace exampleNow_micros
      hrun (i := false) (j := true) (by decide)

/-- Alice's vacate times out, she reads her own claim back, the vacate is applied
after all, and bob claims the lease that it left unclaimed. -/
def vacateAppliedLate : List (Action Bool) :=
  aliceClaims ++
    [.call false (.vacate "alice"), .fail false .timeout,
      .call false .sync, .serve ⟨8, false, .get⟩,
      .deliver false (.ok ⟨some "2", some aliceLease⟩),
      .apply ⟨6, false, .patch (.vacate "2" "alice")⟩ "3",
      .call true .init, .serve ⟨10, true, .get⟩,
      .deliver true (.ok ⟨some "3", some ⟨none, none, none, none, some 1⟩⟩),
      .call true (.ensureClaimed "bob" default), .resume true, .resume true,
      .apply ⟨14, true, .patch (.claim ⟨.acquire, "3", "bob",
        (default : ClaimParams).leaseDelta, exampleNow, 2⟩)⟩ "4",
      .deliver true (.ok ⟨some "4",
        some ⟨some "bob", some exampleNow, some exampleNow, some 30, some 2⟩⟩)]

/-- Without the condition on reads, alice's and bob's claims are current at the
same time. -/
theorem two_current_claims :
    Function.Injective exampleClaimant ∧
    (∀ i, (exampleParams i).leaseDuration.WholeSeconds ∧
      (exampleParams i).renewGracePeriod.toNanos ≤
        (exampleParams i).leaseDuration.toNanos) ∧
    exampleNow.Micros ∧
    ∃ s : Sys Bool,
      Run (Sys.StepServing .release exampleClaimant exampleParams) exampleStart
        vacateAppliedLate s ∧
      s.currentFor false (exampleClaimant false) = true ∧
      s.currentFor true (exampleClaimant true) = true := by
  refine ⟨exampleClaimant_injective, fun i => ⟨rfl, exampleParams_grace i⟩,
    exampleNow_micros, ?_⟩
  obtain ⟨s, hs⟩ := Option.isSome_iff_exists.mp
    (show (execAll (Sys.step? .release) exampleStart
      vacateAppliedLate).isSome = true by decide +kernel)
  have hallowed : ∀ a ∈ vacateAppliedLate,
      a.Obeys (servesWith exampleClaimant exampleParams) ∧ a.InMicros := by
    simp [vacateAppliedLate, aliceClaims, Action.Obeys, Action.InMicros,
      servesWith, exampleClaimant, exampleParams]
  have hrun : Run (Sys.StepServing .release exampleClaimant exampleParams)
      exampleStart vacateAppliedLate s := by
    refine ((run_of_execAll (fun _ _ _ h => h) hs).restrict hallowed).mono ?_
    intro s a t hstep
    exact ⟨⟨hstep.1, hstep.2.1⟩, hstep.2.2⟩
  refine ⟨s, hrun, ?_, ?_⟩
  · exact eq_of_execAll_map
      (fun s => s.currentFor false (exampleClaimant false)) (b := true) hs
      (by decide +kernel)
  · exact eq_of_execAll_map
      (fun s => s.currentFor true (exampleClaimant true)) (b := true) hs
      (by decide +kernel)

end Lease
end Kubert
