import Kubert.Lease.Spawn

/-!
# When a claim is due

The deadline of a claim is computed twice.  The task of `spawn` waits for it with
`expire_with_grace`, in `std` durations that are subtracted down to zero.  After that
`ensure_claimed` computes it again, in `chrono` durations: a grace period that
`chrono` cannot represent counts as none, and a difference before the first date of
`chrono` panics.

Both come to the same for a claim of somebody else, which has no grace period, and for
every grace period that can be taken off the expiry (`WaitAgrees`).  For a longer
one the task does not wait at all, and `ensure_claimed` panics or returns the claim
that the task had, which it publishes again.  A poll of the task goes by this wait
(`poll_of_waitsFor`), and so the condition tells what the poll leads to
(`poll_agrees_iff`).
-/

namespace Kubert
namespace Lease

/-! ## The wait -/

section Wait

variable {claimant : String} {params : ClaimParams} {claim : Claim}
  {start now later : DateTime}

/-- The wait of the task for a claim, which began at the first clock reading, is over
at the second one. -/
def WaitOver (claimant : String) (params : ClaimParams) (claim : Claim)
    (start now : DateTime) : Prop :=
  start.nanos + claim.expireWithGrace start (Spawned.grace claimant params claim) ≤ now.nanos

instance (start now : DateTime) : Decidable (WaitOver claimant params claim start now) :=
  inferInstanceAs (Decidable (_ ≤ _))

/-- The wait ends when the grace period before the expiry begins. -/
theorem waitOver_iff (hstart : start ≤ now) :
    WaitOver claimant params claim start now ↔
      claim.expiry.nanos - (Spawned.grace claimant params claim).toNanos ≤ now.nanos := by
  have hle := (DateTime.le_def start now).mp hstart
  unfold WaitOver Claim.expireWithGrace
  split
  · rename_i hbefore
    have hbefore' := (DateTime.le_def start claim.expiry).mp hbefore
    omega
  · rename_i hafter
    have hafter' := mt (DateTime.le_def start claim.expiry).mpr hafter
    omega

theorem waitOver_of_other (hholder : claim.holder ≠ claimant) (hstart : start ≤ now) :
    WaitOver claimant params claim start now ↔ claim.expiry.nanos ≤ now.nanos := by
  rw [waitOver_iff hstart, Spawned.grace, if_neg hholder]
  change claim.expiry.nanos - ((0 : Nat) : Int) ≤ now.nanos ↔ _
  omega

theorem waitOver_of_own (hholder : claim.holder = claimant) (hstart : start ≤ now) :
    WaitOver claimant params claim start now ↔
      claim.expiry.nanos - params.renewGracePeriod.toNanos ≤ now.nanos := by
  rw [waitOver_iff hstart, Spawned.grace, if_pos hholder]

end Wait

/-! ## The loop of `spawn` -/

section Poll

variable {ι : Type} [DecidableEq ι] {profile : Profile} {i : ι} {claimant : String}
  {params : ClaimParams} {x : Spawned ι} {claim : Claim}

/-- The task of `spawn` starts to wait, unless the wait is over at once. -/
theorem poll_selecting (htask : x.task = .selecting claim) (hopen : x.closed = false) :
    x.poll profile i claimant params =
      if WaitOver claimant params claim x.sys.now x.sys.now then
        x.ensureClaimed profile i claimant params
      else some { x with task := .sleeping claim (x.sys.now.nanos +
        claim.expireWithGrace x.sys.now (Spawned.grace claimant params claim)) } := by
  have hzero : WaitOver claimant params claim x.sys.now x.sys.now ↔
      claim.expireWithGrace x.sys.now (Spawned.grace claimant params claim) = 0 := by
    unfold WaitOver
    omega
  simp only [Spawned.poll, htask, hopen, Bool.false_eq_true, if_false, hzero]

/-- The task goes on as soon as it is polled after the wait is over. -/
theorem poll_sleeping {start : DateTime}
    (htask : x.task = .sleeping claim (start.nanos +
      claim.expireWithGrace start (Spawned.grace claimant params claim)))
    (hopen : x.closed = false) :
    x.poll profile i claimant params =
      if WaitOver claimant params claim start x.sys.now then
        x.ensureClaimed profile i claimant params
      else some x := by
  simp only [Spawned.poll, htask, hopen, Bool.false_eq_true, if_false]
  exact if_congr Iff.rfl rfl rfl

/-- The task waits for a claim since this clock reading: since now, if it has not looked
at its timer yet. -/
inductive Task.WaitsFor (claimant : String) (params : ClaimParams) (claim : Claim)
    (now : DateTime) : Task → DateTime → Prop
  | selecting : WaitsFor claimant params claim now (.selecting claim) now
  | sleeping (start : DateTime) (hstart : start ≤ now) :
      WaitsFor claimant params claim now (.sleeping claim (start.nanos +
        claim.expireWithGrace start (Spawned.grace claimant params claim))) start

theorem Task.WaitsFor.le {now start : DateTime} {task : Task}
    (h : task.WaitsFor claimant params claim now start) : start ≤ now := by
  cases h with
  | selecting => exact DateTime.le_refl now
  | sleeping _ hstart => exact hstart

/-- A poll of the waiting task calls `ensure_claimed` if the wait is over, and lets the
task sleep on otherwise. -/
theorem poll_of_waitsFor {start : DateTime}
    (hwaits : x.task.WaitsFor claimant params claim x.sys.now start)
    (hopen : x.closed = false) :
    x.poll profile i claimant params =
      if WaitOver claimant params claim start x.sys.now then
        x.ensureClaimed profile i claimant params
      else some { x with task := .sleeping claim (start.nanos +
        claim.expireWithGrace start (Spawned.grace claimant params claim)) } := by
  generalize htask : x.task = task at hwaits
  cases hwaits with
  | selecting => exact poll_selecting htask hopen
  | sleeping start hstart => rw [poll_sleeping htask hopen, ← htask]

/-- The call of `ensure_claimed` begins, if no other call is in progress. -/
theorem ensureClaimed_of_idle {m : LeaseManager} (hnode : x.sys.nodes i = ⟨some m, .idle⟩) :
    ∃ y, x.ensureClaimed profile i claimant params = some y ∧ y.task = .claiming ∧
      y.sys.nodes i = ⟨some m, .ensuring claimant params⟩ := by
  let effect : Effect := ⟨⟨some m, .ensuring claimant params⟩, none, none⟩
  have hstep : (x.sys.nodes i).step profile x.sys.now x.sys.nextId
      (.call (.ensureClaimed claimant params)) = some effect := by
    rw [hnode]
    rfl
  refine ⟨⟨x.sys.advance i effect, .claiming, x.closed⟩, ?_, rfl,
    Sys.advance_nodes_self x.sys i effect⟩
  simp only [Spawned.ensureClaimed, Spawned.invoke, Sys.perform, Sys.nodeStep, hstep,
    Option.map_some]
  rfl

end Poll

/-! ## The two computations agree -/

section Agreement

variable {profile : Profile} {claimant : String} {params : ClaimParams} {claim : Claim}
  {m : LeaseManager} {start now later : DateTime}

/-- A call of `ensure_claimed` returns this claim at once, without a request. -/
def ReturnsAtOnce (profile : Profile) (m : LeaseManager) (claimant : String)
    (params : ClaimParams) (now : DateTime) (claim : Claim) : Prop :=
  ∀ id, Node.resume profile now id ⟨some m, .ensuring claimant params⟩ =
    some ⟨⟨some m, .idle⟩, none, some (.ensureClaimed (.ok claim))⟩

/-- A call of `ensure_claimed` turns to the API server: the top of its loop decides for
`renew` or `acquire`, which sends its write at whatever time it reads then. -/
def TurnsToApi (profile : Profile) (m : LeaseManager) (claimant : String)
    (params : ClaimParams) (now : DateTime) : Prop :=
  ∃ kind : ClaimKind, ∀ id writeTime,
    Node.resume profile now id ⟨some m, .ensuring claimant params⟩ =
        some ⟨⟨some m, kind.pc claimant params⟩, none, none⟩ ∧
      ∃ write, Node.resume profile writeTime id ⟨some m, kind.pc claimant params⟩ =
        some ⟨⟨some m, .claiming id write params⟩, some (.patch (.claim write)), none⟩

/-- The wait and `ensure_claimed` agree on a cached claim: once the wait is over
`ensure_claimed` turns to the API server, and before that it returns the claim. -/
structure WaitAgrees (profile : Profile) (claimant : String) (params : ClaimParams)
    (m : LeaseManager) (claim : Claim) (start now later : DateTime) : Prop where
  waited : WaitOver claimant params claim start now →
    TurnsToApi profile m claimant params later
  waiting : ¬ WaitOver claimant params claim start now →
    ReturnsAtOnce profile m claimant params now claim

/-- The grace period can be taken off the expiry; or it is too long for a
`chrono::Duration`, and the claim has run out. -/
structure GraceFits (params : ClaimParams) (claim : Claim) (later : DateTime) : Prop where
  inRange : ∀ grace, TimeDelta.fromStd params.renewGracePeriod = some grace →
    -8334601228800000000000 ≤ claim.expiry.nanos - grace.nanos
  expired : TimeDelta.fromStd params.renewGracePeriod = none → claim.expiry ≤ later

/-- The transitions can be counted once more. -/
def TransitionsFit (profile : Profile) (m : LeaseManager) : Prop :=
  profile = .debug → m.state.meta.transitions ≠ 65535

theorem returnsAtOnce_of_head
    (hhead : ensureClaimedHead now m.state claimant params = .return claim) :
    ReturnsAtOnce profile m claimant params now claim := by
  intro id
  simp only [Node.resume, hhead]

theorem turnsToApi_of_renew (hhead : ensureClaimedHead now m.state claimant params = .renew) :
    TurnsToApi profile m claimant params now := by
  refine ⟨.renew, fun id writeTime => ⟨?_, _, rfl⟩⟩
  simp only [Node.resume, hhead, ClaimKind.pc]

theorem Profile.succ_isSome_iff (profile : Profile) (n : UInt16) :
    (profile.succ n).isSome = true ↔ (profile = .debug → n ≠ 65535) := by
  cases profile with
  | debug =>
      by_cases hn : n = 65535
      · simp [Profile.succ, hn]
      · simp [Profile.succ, hn]
  | release => simp [Profile.succ]

/-- An `acquire` is sent unless the transitions overflow. -/
theorem turnsToApi_iff_of_acquire
    (hhead : ensureClaimedHead now m.state claimant params = .acquire) :
    TurnsToApi profile m claimant params now ↔ TransitionsFit profile m := by
  unfold TransitionsFit
  rw [← Profile.succ_isSome_iff, Option.isSome_iff_exists]
  constructor
  · rintro ⟨kind, hsends⟩
    obtain ⟨hstep, write, hwrite⟩ := hsends 0 now
    cases kind with
    | renew => simp [Node.resume, hhead, ClaimKind.pc] at hstep
    | acquire =>
        cases hsucc : profile.succ m.state.meta.transitions with
        | none => simp [Node.resume, ClaimKind.pc, acquire, hsucc] at hwrite
        | some transitions => exact ⟨transitions, rfl⟩
  · rintro ⟨transitions, hsucc⟩
    refine ⟨.acquire, fun id writeTime => ?_⟩
    obtain ⟨write, hwrite⟩ :
        ∃ write, acquire profile m.state.meta claimant params writeTime = some write := by
      rw [acquire, hsucc]
      exact ⟨_, rfl⟩
    refine ⟨?_, write, ?_⟩
    · simp only [Node.resume, hhead, ClaimKind.pc]
    · simp only [Node.resume, ClaimKind.pc, hwrite]

/-- No write follows a loop that returns or panics. -/
theorem not_turnsToApi (hrenew : ensureClaimedHead now m.state claimant params ≠ .renew)
    (hacquire : ensureClaimedHead now m.state claimant params ≠ .acquire) :
    ¬ TurnsToApi profile m claimant params now := by
  rintro ⟨kind, hsends⟩
  have hstep := (hsends 0 now).1
  cases hhead : ensureClaimedHead now m.state claimant params with
  | renew => exact hrenew hhead
  | acquire => exact hacquire hhead
  | «return» cached => simp [Node.resume, hhead] at hstep
  | panic => simp [Node.resume, hhead] at hstep

/-- On a claim of somebody else only the count of the transitions can go wrong. -/
theorem waitAgrees_iff_of_other (hclaim : m.state.claim = some claim)
    (hholder : claim.holder ≠ claimant) (hstart : start ≤ now) (hlater : now ≤ later) :
    WaitAgrees profile claimant params m claim start now later ↔
      (claim.expiry ≤ now → TransitionsFit profile m) := by
  have hle := (DateTime.le_def now later).mp hlater
  have hover : WaitOver claimant params claim start now ↔ _ :=
    waitOver_of_other hholder hstart
  have hhead (t : DateTime) : ensureClaimedHead t m.state claimant params = _ :=
    ensureClaimedHead_of_other hclaim hholder t
  rw [DateTime.le_def]
  constructor
  · intro hagrees hexpired
    refine (turnsToApi_iff_of_acquire ?_).mp (hagrees.waited (hover.mpr hexpired))
    rw [hhead, if_neg (by omega)]
  · intro hfits
    constructor
    · intro hwait
      have hexpired := hover.mp hwait
      refine (turnsToApi_iff_of_acquire ?_).mpr (hfits hexpired)
      rw [hhead, if_neg (by omega)]
    · intro hwait
      rw [hover] at hwait
      apply returnsAtOnce_of_head
      rw [hhead, if_pos (by omega)]

/-- With a grace period that can be taken off the expiry, both deadlines are the
same. -/
theorem waitAgrees_of_renewAt (hclaim : m.state.claim = some claim)
    (hholder : claim.holder = claimant) (hstart : start ≤ now) (hlater : now ≤ later)
    {grace : TimeDelta} (hgrace : TimeDelta.fromStd params.renewGracePeriod = some grace)
    {renewAt : DateTime} (hrenewAt : claim.expiry.checkedSub grace = some renewAt) :
    WaitAgrees profile claimant params m claim start now later := by
  have hle := (DateTime.le_def now later).mp hlater
  have hnanos := DateTime.checkedSub_nanos hrenewAt
  rw [TimeDelta.fromStd_nanos hgrace] at hnanos
  have hsub : claim.expiry.checkedSub params.graceDelta = some renewAt := by
    rw [ClaimParams.graceDelta, hgrace]
    exact hrenewAt
  have hover : WaitOver claimant params claim start now ↔ _ :=
    waitOver_of_own hholder hstart
  have hhead := ensureClaimedHead_of_own hclaim hholder hsub
  constructor
  · intro hwait
    rw [hover] at hwait
    apply turnsToApi_of_renew
    rw [hhead, if_neg (by omega)]
  · intro hwait
    rw [hover] at hwait
    apply returnsAtOnce_of_head
    rw [hhead, if_pos (by omega)]

/-- A grace period that reaches back before the first date of `chrono` makes
`ensure_claimed` panic, and the task does not wait. -/
theorem panics_of_checkedSub_eq_none (hclaim : m.state.claim = some claim)
    (hholder : claim.holder = claimant) (hstart : start ≤ now) (later : DateTime)
    {grace : TimeDelta} (hgrace : TimeDelta.fromStd params.renewGracePeriod = some grace)
    (hnone : claim.expiry.checkedSub grace = none) :
    WaitOver claimant params claim start now ∧
      ensureClaimedHead later m.state claimant params = .panic := by
  constructor
  · have hlower := now.lower
    have hearly := (DateTime.checkedSub_eq_none_iff (TimeDelta.fromStd_nonneg hgrace)).mp hnone
    rw [TimeDelta.fromStd_nanos hgrace] at hearly
    rw [waitOver_of_own hholder hstart]
    omega
  · apply ensureClaimedHead_of_overflow hclaim hholder
    rw [ClaimParams.graceDelta, hgrace]
    exact hnone

/-- A grace period that is no `chrono::Duration` counts as none for `ensure_claimed`,
and the task does not wait. -/
theorem spins_of_fromStd_eq_none (hclaim : m.state.claim = some claim)
    (hholder : claim.holder = claimant) (hstart : start ≤ now) (later : DateTime)
    (hgrace : TimeDelta.fromStd params.renewGracePeriod = none) :
    WaitOver claimant params claim start now ∧
      ensureClaimedHead later m.state claimant params =
        if later.nanos < claim.expiry.nanos then .return claim else .renew := by
  constructor
  · have hlower := now.lower
    have hupper := claim.expiry.upper
    have hlong : 9223372036854775807000000 < (params.renewGracePeriod.toNanos : Int) := by
      by_contra hfits
      rw [TimeDelta.fromStd, dif_pos (by omega)] at hgrace
      cases hgrace
    rw [waitOver_of_own hholder hstart]
    omega
  · have hzero : claim.expiry.checkedSub params.graceDelta = some claim.expiry := by
      rw [ClaimParams.graceDelta, hgrace, Option.getD_none, DateTime.checkedSub_zero]
    exact ensureClaimedHead_of_own hclaim hholder hzero later

/-- A grace period that is no `chrono::Duration` is one only for the wait. -/
theorem waitAgrees_iff_of_fromStd_eq_none (hclaim : m.state.claim = some claim)
    (hholder : claim.holder = claimant) (hstart : start ≤ now)
    (hgrace : TimeDelta.fromStd params.renewGracePeriod = none) :
    WaitAgrees profile claimant params m claim start now later ↔ claim.expiry ≤ later := by
  obtain ⟨hover, hhead⟩ := spins_of_fromStd_eq_none hclaim hholder hstart later hgrace
  rw [DateTime.le_def]
  constructor
  · intro hagrees
    by_contra hcurrent
    rw [if_pos (by omega)] at hhead
    exact not_turnsToApi (by simp [hhead]) (by simp [hhead]) (hagrees.waited hover)
  · intro hexpired
    rw [if_neg (by omega)] at hhead
    exact ⟨fun _ => turnsToApi_of_renew hhead, fun hwait => absurd hover hwait⟩

/-- A grace period that is a `chrono::Duration` must not reach back too far. -/
theorem waitAgrees_iff_of_fromStd_eq_some (hclaim : m.state.claim = some claim)
    (hholder : claim.holder = claimant) (hstart : start ≤ now) (hlater : now ≤ later)
    {grace : TimeDelta} (hgrace : TimeDelta.fromStd params.renewGracePeriod = some grace) :
    WaitAgrees profile claimant params m claim start now later ↔
      claim.expiry.checkedSub grace ≠ none := by
  constructor
  · intro hagrees hnone
    obtain ⟨hover, hhead⟩ :=
      panics_of_checkedSub_eq_none hclaim hholder hstart later hgrace hnone
    exact not_turnsToApi (by simp [hhead]) (by simp [hhead]) (hagrees.waited hover)
  · intro hsome
    obtain ⟨renewAt, hrenewAt⟩ := Option.ne_none_iff_exists'.mp hsome
    exact waitAgrees_of_renewAt hclaim hholder hstart hlater hgrace hrenewAt

/-- On an own claim only the grace period can go wrong. -/
theorem waitAgrees_iff_of_own (hclaim : m.state.claim = some claim)
    (hholder : claim.holder = claimant) (hstart : start ≤ now) (hlater : now ≤ later) :
    WaitAgrees profile claimant params m claim start now later ↔
      GraceFits params claim later := by
  cases hgrace : TimeDelta.fromStd params.renewGracePeriod with
  | none =>
      rw [waitAgrees_iff_of_fromStd_eq_none hclaim hholder hstart hgrace]
      constructor
      · intro hexpired
        refine ⟨fun grace hsome => ?_, fun _ => hexpired⟩
        rw [hgrace] at hsome
        cases hsome
      · intro hfits
        exact hfits.expired hgrace
  | some grace =>
      rw [waitAgrees_iff_of_fromStd_eq_some hclaim hholder hstart hlater hgrace, ne_eq,
        DateTime.checkedSub_eq_none_iff (TimeDelta.fromStd_nonneg hgrace), Int.not_lt]
      constructor
      · intro hrange
        refine ⟨fun grace' hsome => ?_, fun hnone => ?_⟩
        · rw [hgrace] at hsome
          obtain rfl := Option.some.inj hsome
          exact hrange
        · rw [hgrace] at hnone
          cases hnone
      · intro hfits
        exact hfits.inRange grace hgrace

/-- The wait of the task and `ensure_claimed` agree on an own claim exactly if the grace
period can be taken off its expiry, or is too long for a `chrono::Duration` and the
claim has run out; and on a claim of somebody else exactly if it is not over or its
transitions can be counted once more. -/
theorem wait_agrees_iff (hclaim : m.state.claim = some claim) (hstart : start ≤ now)
    (hlater : now ≤ later) :
    WaitAgrees profile claimant params m claim start now later ↔
      if claim.holder = claimant then GraceFits params claim later
      else claim.expiry ≤ now → TransitionsFit profile m := by
  split
  · rename_i hholder
    exact waitAgrees_iff_of_own hclaim hholder hstart hlater
  · rename_i hholder
    exact waitAgrees_iff_of_other hclaim hholder hstart hlater

/-- Under the same condition a poll of the task leads where it should: if it calls
`ensure_claimed`, this turns to the API server, and if it lets the task sleep on, a call
would return the claim at once. -/
theorem poll_agrees_iff {ι : Type} [DecidableEq ι] {i : ι} {x : Spawned ι}
    (hwaits : x.task.WaitsFor claimant params claim x.sys.now start)
    (hopen : x.closed = false) (hnode : x.sys.nodes i = ⟨some m, .idle⟩)
    (hclaim : m.state.claim = some claim) (hlater : x.sys.now ≤ later) :
    ∃ y, x.poll profile i claimant params = some y ∧
      (y.task = .claiming → y.sys.nodes i = ⟨some m, .ensuring claimant params⟩) ∧
      ((y.task = .claiming → TurnsToApi profile m claimant params later) ∧
          (y.task ≠ .claiming → ReturnsAtOnce profile m claimant params x.sys.now claim) ↔
        if claim.holder = claimant then GraceFits params claim later
        else claim.expiry ≤ x.sys.now → TransitionsFit profile m) := by
  have hagrees : WaitAgrees profile claimant params m claim start x.sys.now later ↔
      if claim.holder = claimant then GraceFits params claim later
      else claim.expiry ≤ x.sys.now → TransitionsFit profile m := by
    split
    · rename_i hholder
      exact waitAgrees_iff_of_own hclaim hholder hwaits.le hlater
    · rename_i hholder
      exact waitAgrees_iff_of_other hclaim hholder hwaits.le hlater
  rw [poll_of_waitsFor hwaits hopen, ← hagrees]
  by_cases hover : WaitOver claimant params claim start x.sys.now
  · obtain ⟨y, hcall, htask, hy⟩ : ∃ y, x.ensureClaimed profile i claimant params = some y ∧
        y.task = .claiming ∧ y.sys.nodes i = ⟨some m, .ensuring claimant params⟩ :=
      ensureClaimed_of_idle hnode
    refine ⟨y, (if_pos hover).trans hcall, fun _ => hy, ?_⟩
    constructor
    · intro h
      exact ⟨fun _ => h.1 htask, fun hwait => absurd hover hwait⟩
    · intro h
      exact ⟨fun _ => h.waited hover, fun hne => absurd htask hne⟩
  · -- The task sleeps on, and does not call anything.
    have hsleeps {y : Spawned ι} {wakeAt : Int} (htask : y.task = .sleeping claim wakeAt) :
        y.task ≠ .claiming := by simp [htask]
    refine ⟨_, if_neg hover, fun hcall => absurd hcall (hsleeps rfl), ?_⟩
    constructor
    · intro h
      exact ⟨fun hwait => absurd hwait hover, fun _ => h.2 (hsleeps rfl)⟩
    · intro h
      exact ⟨fun hcall => absurd hcall (hsleeps rfl), fun _ => h.waiting hover⟩

/-- A claim of alice for the next half minute. -/
def aliceClaim : Claim := ⟨"alice", ⟨exampleNow.nanos + 30000000000, by decide, by decide⟩⟩

/-- The manager that has cached it. -/
def claimedManager : LeaseManager := ⟨⟨⟨"2", 1⟩, some aliceClaim⟩, none⟩

/-- With the default parameters alice's task waits until a second before the expiry. -/
theorem default_wait_agrees :
    claimedManager.state.claim = some aliceClaim ∧
      WaitAgrees .release "alice" default claimedManager aliceClaim exampleNow exampleNow
        exampleNow := by
  refine ⟨rfl, (wait_agrees_iff rfl (DateTime.le_refl _) (DateTime.le_refl _)).mpr ?_⟩
  rw [if_pos (show aliceClaim.holder = "alice" from rfl)]
  constructor
  · intro grace hgrace
    have hnanos := TimeDelta.fromStd_nanos hgrace
    have hsecond : (default : ClaimParams).renewGracePeriod.toNanos = 1000000000 := rfl
    have hexpiry : aliceClaim.expiry.nanos = 1700000030000000000 := rfl
    omega
  · intro hnone
    exact absurd hnone (by decide)

/-- Alice renews as early as possible. -/
def longGrace : ClaimParams :=
  ⟨Duration.fromSecs 30, Duration.fromSecs 18446744073709551615⟩

/-- The task does not wait at all, and `ensure_claimed` returns the claim that the task
had: it is published again and again for half a minute. -/
theorem long_grace_spins :
    WaitOver "alice" longGrace aliceClaim exampleNow exampleNow ∧
      ReturnsAtOnce .release claimedManager "alice" longGrace exampleNow aliceClaim ∧
      ¬ WaitAgrees .release "alice" longGrace claimedManager aliceClaim exampleNow exampleNow
        exampleNow := by
  have hgrace : TimeDelta.fromStd longGrace.renewGracePeriod = none := by decide
  obtain ⟨hover, hhead⟩ := spins_of_fromStd_eq_none (show claimedManager.state.claim =
    some aliceClaim from rfl) (show aliceClaim.holder = "alice" from rfl)
    (DateTime.le_refl exampleNow) exampleNow hgrace
  have hbefore : exampleNow.nanos < aliceClaim.expiry.nanos := by decide
  rw [if_pos hbefore] at hhead
  refine ⟨hover, returnsAtOnce_of_head hhead, fun hagrees => ?_⟩
  exact not_turnsToApi (by simp [hhead]) (by simp [hhead]) (hagrees.waited hover)

end Agreement

end Lease
end Kubert
