import Kubert.Lease.Failures

/-!
# Lease diagnostics

`Runtime::spawn_lease` registers the diagnostics of a lease, initialises the manager,
attaches the diagnostics and spawns the manager.  From then on the diagnostics are a
copy of the cached claim and version that every branch which changes the cache has to
update by a call of `inspect`.

Three places do not.  `init` reads the state before the diagnostics are attached, so
that a first `ensure_claimed` which returns that claim shows nothing.  `vacate` drops a
claim that is over, or whose patch fails, without a call of `inspect`.  And after its
patch `vacate` shows the new version, while the cache keeps the old one.  Everywhere
else the copy agrees with the cache (`diagnostics_show_cache`).
-/

namespace Kubert
namespace Lease

open Foundation

/-- `LeaseDiagnostics::new`. -/
def LeaseDiagnostics.new : LeaseDiagnostics := ⟨none, none, 0, none⟩

/-! ## What is shown -/

namespace LeaseManager

/-- The diagnostics show the cached claim and its version. -/
def Shows (m : LeaseManager) : Prop :=
  ∃ d, m.diagnostics = some d ∧ d.current = m.state.claim ∧
    d.resourceVersion = some m.state.meta.version

/-- The diagnostics have been updated since they were registered. -/
def Inspected (m : LeaseManager) : Prop :=
  ∃ d, m.diagnostics = some d ∧ d.resourceVersion ≠ none

theorem Shows.inspected {m : LeaseManager} (h : m.Shows) : m.Inspected := by
  obtain ⟨d, hd, -, hversion⟩ := h
  exact ⟨d, hd, by simp [hversion]⟩

end LeaseManager

/-- After an inspection the diagnostics show what was passed to it, whether or not it
was taken for a change. -/
theorem LeaseDiagnostics.inspect_shows (d : LeaseDiagnostics) (now : DateTime)
    (claim : Option Claim) (version : String) :
    (d.inspect now claim version).current = claim ∧
      (d.inspect now claim version).resourceVersion = some version := by
  unfold LeaseDiagnostics.inspect
  split
  · rename_i hsame
    exact ⟨hsame.1, hsame.2.symm⟩
  · exact ⟨rfl, rfl⟩

theorem LeaseManager.inspect_diagnostics {m : LeaseManager} {d : LeaseDiagnostics}
    (hd : m.diagnostics = some d) (now : DateTime) (claim : Option Claim)
    (version : String) :
    (m.inspect now claim version).diagnostics = some (d.inspect now claim version) := by
  simp [LeaseManager.inspect, hd]

/-- Every update of the cache is followed by an inspection of it. -/
theorem LeaseManager.update_shows {m : LeaseManager} (hd : m.diagnostics ≠ none)
    (now : DateTime) (state : State) : (m.update now state).Shows := by
  obtain ⟨d, hd⟩ := Option.ne_none_iff_exists'.mp hd
  obtain ⟨hcurrent, hversion⟩ := d.inspect_shows now state.claim state.meta.version
  exact ⟨_, LeaseManager.inspect_diagnostics hd now _ _, hcurrent, hversion⟩

/-! ## The manager of `spawn_lease` -/

/-- The call waits for the answer to the patch of `vacate`. -/
def Pc.vacates : Pc → Bool
  | .vacating _ _ _ => true
  | _ => false

/-- The event ends a successful `ensure_claimed`. -/
def NodeEvent.Claims (e : NodeEvent) : Prop := ∃ claim, e.ret = some (.ensureClaimed (.ok claim))

theorem GetFor.fail_ne_ok (caller : GetFor) (f : Fault) (claim : Claim) :
    some (caller.fail f) ≠ some (.ensureClaimed (.ok claim)) := by
  cases caller <;> simp [GetFor.fail]

namespace Node

/-- The manager that `Runtime::spawn_lease` hands to `spawn`, if `init` reads this
resource. -/
def spawnLease (now : DateTime) (lease : LeaseResource) : Option Node :=
  match get now (.ok lease) with
  | .error _ => none
  | .ok state => some ⟨some ⟨state, some LeaseDiagnostics.new⟩, .idle⟩

/-- The step relation of that manager: nobody replaces its diagnostics. -/
def Operates (profile : Profile) (node : Node) (e : NodeEvent) (node' : Node) : Prop :=
  Next profile node e node' ∧ ∀ d, e.input ≠ .call (.withDiagnostics d)

/-- The diagnostics show the state of the manager. -/
def Shows (node : Node) : Prop := ∃ m, node.manager = some m ∧ m.Shows

/-- The step avoids the three places: `ensure_claimed` does not return a claim before
the first inspection, `vacate` does not find a claim that is over, and its patch is
answered with the version that is cached. -/
structure Mirrors (node : Node) (e : NodeEvent) : Prop where
  returned : ∀ m claimant params claim, node.manager = some m →
    node.pc = .ensuring claimant params →
    ensureClaimedHead e.now m.state claimant params = .return claim → m.Inspected
  current : ∀ m claimant claim, node.manager = some m → e.input = .call (.vacate claimant) →
    m.state.claim = some claim → claim.isCurrent e.now = true
  answered : ∀ m, node.manager = some m → node.pc.vacates = true →
    ∃ lease, e.input = .response (.ok lease) ∧
      lease.resourceVersion.getD "" = m.state.meta.version

/-! ## The invariant -/

/-- Diagnostics that have been updated show the cache, except while `vacate` waits: by
then it has taken the claim that they still show. -/
structure Tracks (m : LeaseManager) (pc : Pc) : Prop where
  initialised : ∀ id, pc ≠ .getting id .init
  attached : m.diagnostics ≠ none
  shown : pc.vacates = false → m.Inspected → m.Shows
  taken : pc.vacates = true → m.state.claim = none ∧
    ∀ d, m.diagnostics = some d → d.resourceVersion ≠ none → d.current ≠ none

namespace Tracks

variable {m : LeaseManager} {pc pc' : Pc}

/-- A step that leaves the manager alone. -/
theorem move (h : Tracks m pc) (hfrom : pc.vacates = false) (hto : pc'.vacates = false)
    (hinit : ∀ id, pc' ≠ .getting id .init) : Tracks m pc' where
  initialised := hinit
  attached := h.attached
  shown := fun _ hinspected => h.shown hfrom hinspected
  taken := fun hvacates => absurd (hto.symm.trans hvacates) Bool.false_ne_true

/-- The same, as a step of a run. -/
theorem keep (h : Tracks m pc) (hfrom : pc.vacates = false) (hto : pc'.vacates = false)
    (hinit : ∀ id, pc' ≠ .getting id .init) {e : NodeEvent} (hclaims : e.Claims → m.Inspected) :
    ∃ m', some m = some m' ∧ Tracks m' pc' ∧ (e.Claims ∨ m.Inspected → m'.Inspected) := by
  refine ⟨m, rfl, h.move hfrom hto hinit, ?_⟩
  rintro (hevent | hinspected)
  · exact hclaims hevent
  · exact hinspected

/-- A step that shows the new state of the manager. -/
theorem of_shows (hshows : m.Shows) (hto : pc.vacates = false)
    (hinit : ∀ id, pc ≠ .getting id .init) : Tracks m pc where
  initialised := hinit
  attached := by
    obtain ⟨d, hd, -⟩ := hshows
    simp [hd]
  shown := fun _ _ => hshows
  taken := fun hvacates => absurd (hto.symm.trans hvacates) Bool.false_ne_true

theorem shown_step (hshows : m.Shows) (hto : pc.vacates = false)
    (hinit : ∀ id, pc ≠ .getting id .init) {past : Prop} :
    ∃ m', some m = some m' ∧ Tracks m' pc ∧ (past → m'.Inspected) :=
  ⟨m, rfl, of_shows hshows hto hinit, fun _ => hshows.inspected⟩

/-- `vacate` has taken the claim and sent its patch. -/
theorem vacateSent (h : Tracks m pc) (hfrom : pc.vacates = false) {claim : Claim}
    (hclaim : m.state.claim = some claim) (id : Nat) (version claimant : String) :
    Tracks { m with state := ⟨m.state.meta, none⟩ } (.vacating id version claimant) where
  initialised := by simp
  attached := h.attached
  shown := fun hvacates => absurd hvacates (by simp [Pc.vacates])
  taken := by
    refine fun _ => ⟨rfl, fun d hd hversion => ?_⟩
    obtain ⟨d', hd', hcurrent, -⟩ := h.shown hfrom ⟨d, hd, hversion⟩
    rw [show m.diagnostics = some d from hd] at hd'
    obtain rfl := Option.some.inj hd'
    simp [hcurrent, hclaim]

/-- The patch of `vacate` was answered with the cached version. -/
theorem vacated_shows (h : Tracks m pc) (hfrom : pc.vacates = true) (now : DateTime) :
    (m.inspect now none m.state.meta.version).Shows := by
  obtain ⟨d, hd⟩ := Option.ne_none_iff_exists'.mp h.attached
  obtain ⟨hcurrent, hversion⟩ := d.inspect_shows now none m.state.meta.version
  refine ⟨_, LeaseManager.inspect_diagnostics hd now _ _, ?_, hversion⟩
  rw [hcurrent]
  exact (h.taken hfrom).1.symm

/-- While `vacate` waits, and after its patch has failed, nothing is shown right. -/
theorem not_shows (h : Tracks m pc) (hfrom : pc.vacates = true) : ¬ m.Shows := by
  rintro ⟨d, hd, hcurrent, hversion⟩
  obtain ⟨hnone, htaken⟩ := h.taken hfrom
  exact htaken d hd (by simp [hversion]) (by rw [hcurrent, hnone])

end Tracks

section Steps

variable {profile : Profile} {node node' : Node} {e : NodeEvent} {m : LeaseManager}

/-- A `vacate` that does not find a claim that is over and sends nothing changes
nothing. -/
theorem vacate_state_of_current {now : DateTime} {state state' : State} {claimant : String}
    (h : Lease.vacate now state claimant = (state', none))
    (hcurrent : ∀ claim, state.claim = some claim → claim.isCurrent now = true) :
    state' = state := by
  rcases vacate_eq_none h with ⟨-, hsame⟩ | ⟨claim, hclaim, ⟨hexpired, -⟩ | ⟨-, hsame⟩⟩
  · exact hsame
  · rw [hcurrent claim hclaim] at hexpired
    cases hexpired
  · exact hsame

/-- A step that avoids the three places keeps the invariant, and after a successful
`ensure_claimed` the diagnostics have been updated. -/
theorem Operates.tracks (hstep : Operates profile node e node') (hm : node.manager = some m)
    (htracks : Tracks m node.pc) (hmirrors : node.Mirrors e) :
    ∃ m', node'.manager = some m' ∧ Tracks m' node'.pc ∧
      (e.Claims ∨ m.Inspected → m'.Inspected) := by
  obtain ⟨⟨effect, heffect, hret, rfl⟩, hattached⟩ := hstep
  have hmoves := step_moves heffect
  generalize hinput : e.input = input at hmoves
  cases hmoves with
  | init _ hnone =>
      rw [hm] at hnone
      cases hnone
  | withDiagnostics => exact absurd hinput (hattached _)
  | gotInit hpc => exact absurd hpc (htracks.initialised _)
  | sync hpc hm' | ensureClaimed hpc hm' | headPanicked hpc hm' | renewSent hpc hm'
  | acquireSent hpc hm' | acquirePanicked hpc hm' | conflicted hpc hm'
  | claimFailed hpc hm' | finishFailed hpc hm' =>
      rw [hm] at hm'
      obtain rfl := Option.some.inj hm'
      rw [hpc] at htracks
      exact htracks.keep rfl rfl (by simp) (fun ⟨_, hclaims⟩ => by simp [hclaims] at hret)
  | @due _ _ _ kind hpc hm' _ =>
      rw [hm] at hm'
      obtain rfl := Option.some.inj hm'
      rw [hpc] at htracks
      refine htracks.keep rfl ?_ ?_ (fun ⟨_, hclaims⟩ => by simp [hclaims] at hret)
      · cases kind <;> rfl
      · cases kind <;> simp [ClaimKind.pc]
  | getFailed hpc =>
      rw [hpc] at htracks
      rw [hm]
      refine htracks.keep rfl rfl (by simp) ?_
      rintro ⟨claim, hclaims⟩
      rw [hclaims] at hret
      exact absurd hret (GetFor.fail_ne_ok _ _ _)
  | returned hpc hm' hhead =>
      rw [hm] at hm'
      obtain rfl := Option.some.inj hm'
      rw [hpc] at htracks
      exact htracks.keep rfl rfl (by simp)
        (fun _ => hmirrors.returned _ _ _ _ hm hpc hhead)
  | vacateSkipped hpc hm' hvacate =>
      rw [hm] at hm'
      obtain rfl := Option.some.inj hm'
      -- A claim that is over is excluded, so that the cache is as it was.
      obtain rfl := vacate_state_of_current hvacate
        (fun claim hclaim => hmirrors.current _ _ claim hm hinput hclaim)
      rw [hpc] at htracks
      exact htracks.keep rfl rfl (by simp) (fun ⟨_, hclaims⟩ => by simp [hclaims] at hret)
  | vacateSent hpc hm' hclaim =>
      rw [hm] at hm'
      obtain rfl := Option.some.inj hm'
      rw [hpc] at htracks
      refine ⟨_, rfl, htracks.vacateSent rfl hclaim _ _ _, ?_⟩
      rintro (⟨claim, hclaims⟩ | hinspected)
      · simp [hclaims] at hret
      · exact hinspected
  | gotSync _ hm' | gotResync _ hm' | claimed _ hm' =>
      rw [hm] at hm'
      obtain rfl := Option.some.inj hm'
      exact Tracks.shown_step (LeaseManager.update_shows htracks.attached e.now _) rfl (by simp)
  | vacateFailed hpc hm' =>
      obtain ⟨lease, hresponse, -⟩ := hmirrors.answered _ hm (by rw [hpc]; rfl)
      rw [hinput] at hresponse
      cases hresponse
  | vacated hpc hm' =>
      rw [hm] at hm'
      obtain rfl := Option.some.inj hm'
      have hvacates : node.pc.vacates = true := by
        rw [hpc]
        rfl
      obtain ⟨lease, hresponse, hversion⟩ := hmirrors.answered _ hm hvacates
      rw [hinput] at hresponse
      obtain rfl := Except.ok.inj (Input.response.inj hresponse)
      rw [hversion]
      exact Tracks.shown_step (htracks.vacated_shows hvacates e.now) rfl (by simp)
  | cancelled hawaits =>
      have hvacates : node.pc.vacates = false := by
        by_contra hwaits
        obtain ⟨lease, hresponse, -⟩ :=
          hmirrors.answered _ hm (Bool.eq_true_of_not_eq_false hwaits)
        rw [hinput] at hresponse
        cases hresponse
      rw [hm]
      exact htracks.keep hvacates rfl (by simp) (fun ⟨_, hclaims⟩ => by simp [hclaims] at hret)

/-- A vacate that drops a claim which is over does not show it. -/
theorem Tracks.isCurrent_of_shows {now : DateTime} {state : State} {claimant : String}
    {claim : Claim} (htracks : Tracks m .idle)
    (hvacate : Lease.vacate now m.state claimant = (state, none))
    (hshows : ({ m with state := state } : LeaseManager).Shows)
    (hclaim : m.state.claim = some claim) : claim.isCurrent now = true := by
  by_contra hexpired
  have hdropped : state = ⟨m.state.meta, none⟩ := by
    simp only [Lease.vacate, hclaim, Bool.eq_false_of_not_eq_true hexpired, if_true] at hvacate
    exact (Prod.mk.inj hvacate).1.symm
  obtain ⟨d, hd, hcurrent, hversion⟩ := hshows
  obtain ⟨d', hd', hcurrent', -⟩ := htracks.shown rfl ⟨d, hd, by simp [hversion]⟩
  rw [show m.diagnostics = some d from hd] at hd'
  obtain rfl := Option.some.inj hd'
  rw [hdropped] at hcurrent
  rw [hcurrent', hclaim] at hcurrent
  cases hcurrent

/-- An `ensure_claimed` that returns a cached claim does not update the diagnostics. -/
theorem Operates.inspected_of_shows (hstep : Operates profile node e node')
    (hm : node.manager = some m) (hidle : node'.pc = .idle) (hshows : node'.Shows)
    {claimant : String} {params : ClaimParams} {claim : Claim}
    (hpc : node.pc = .ensuring claimant params)
    (hhead : ensureClaimedHead e.now m.state claimant params = .return claim) :
    m.Inspected := by
  obtain ⟨⟨effect, heffect, -, rfl⟩, -⟩ := hstep
  obtain ⟨m', hm', hshows⟩ := hshows
  have hmoves := step_moves heffect
  generalize e.input = input at hmoves
  cases hmoves with
  | returned _ hm₂ =>
      rw [← hm₂, hm] at hm'
      obtain rfl := Option.some.inj hm'
      exact hshows.inspected
  | cancelled =>
      rw [hm] at hm'
      obtain rfl := Option.some.inj hm'
      exact hshows.inspected
  | @due _ _ _ kind => cases kind <;> cases hidle
  | _ => simp_all

/-- A `vacate` does not show that it has dropped a claim which is over. -/
theorem Operates.isCurrent_of_shows (hstep : Operates profile node e node')
    (hm : node.manager = some m) (htracks : Tracks m node.pc) (hidle : node'.pc = .idle)
    (hshows : node'.Shows) {claimant : String} {claim : Claim}
    (hvacate : e.input = .call (.vacate claimant)) (hclaim : m.state.claim = some claim) :
    claim.isCurrent e.now = true := by
  obtain ⟨⟨effect, heffect, -, rfl⟩, -⟩ := hstep
  obtain ⟨m', hm', hshows⟩ := hshows
  have hmoves := step_moves heffect
  generalize e.input = input at hmoves hvacate
  cases hmoves with
  | vacateSkipped hpc hm₂ hskipped =>
      obtain rfl := Op.vacate.inj (Input.call.inj hvacate)
      rw [hm] at hm₂
      obtain rfl := Option.some.inj hm₂
      obtain rfl := Option.some.inj hm'
      rw [hpc] at htracks
      exact htracks.isCurrent_of_shows hskipped hshows hclaim
  | vacateSent => cases hidle
  | _ => cases hvacate

/-- What is shown after the patch of `vacate` is the version of its answer. -/
theorem Operates.answered_of_shows (hstep : Operates profile node e node')
    (hm : node.manager = some m) (htracks : Tracks m node.pc) (hshows : node'.Shows)
    (hvacates : node.pc.vacates = true) :
    ∃ lease, e.input = .response (.ok lease) ∧
      lease.resourceVersion.getD "" = m.state.meta.version := by
  obtain ⟨⟨effect, heffect, -, rfl⟩, -⟩ := hstep
  obtain ⟨m', hm', hshows⟩ := hshows
  have hmoves := step_moves heffect
  generalize e.input = input at hmoves
  cases hmoves with
  | vacated hpc hm₂ =>
      rw [hm] at hm₂
      obtain rfl := Option.some.inj hm₂
      obtain rfl := Option.some.inj hm'
      obtain ⟨d, hd⟩ := Option.ne_none_iff_exists'.mp htracks.attached
      obtain ⟨d', hd', -, hversion⟩ := hshows
      rw [LeaseManager.inspect_diagnostics hd] at hd'
      obtain rfl := Option.some.inj hd'
      rw [(d.inspect_shows _ _ _).2] at hversion
      exact ⟨_, rfl, Option.some.inj hversion⟩
  | vacateFailed _ hm₂ =>
      rw [← hm₂, hm] at hm'
      obtain rfl := Option.some.inj hm'
      exact absurd hshows (htracks.not_shows hvacates)
  | cancelled =>
      rw [hm] at hm'
      obtain rfl := Option.some.inj hm'
      exact absurd hshows (htracks.not_shows hvacates)
  | _ => simp_all [Pc.vacates]

/-- A step after which the diagnostics show the cache has avoided the three places. -/
theorem Operates.mirrors_of_shows (hstep : Operates profile node e node')
    (hm : node.manager = some m) (htracks : Tracks m node.pc) (hidle : node'.pc = .idle)
    (hshows : node'.Shows) : node.Mirrors e := by
  constructor
  · intro m₁ claimant params claim hm₁ hpc hhead
    rw [hm] at hm₁
    obtain rfl := Option.some.inj hm₁
    exact hstep.inspected_of_shows hm hidle hshows hpc hhead
  · intro m₁ claimant claim hm₁ hvacate hclaim
    rw [hm] at hm₁
    obtain rfl := Option.some.inj hm₁
    exact hstep.isCurrent_of_shows hm htracks hidle hshows hvacate hclaim
  · intro m₁ hm₁ hvacates
    rw [hm] at hm₁
    obtain rfl := Option.some.inj hm₁
    exact hstep.answered_of_shows hm htracks hshows hvacates

end Steps

/-! ## Runs -/

section Runs

variable {profile : Profile} {now : DateTime} {lease : LeaseResource}
  {start node : Node} {events : List NodeEvent}

/-- A run all of whose steps avoid the three places keeps the invariant. -/
theorem tracks_of_run (hstart : spawnLease now lease = some start)
    (hrun : Run (fun node e node' => Operates profile node e node' ∧ node.Mirrors e)
      start events node) :
    ∃ m, node.manager = some m ∧ Tracks m node.pc ∧
      ((∃ e ∈ events, e.Claims) → m.Inspected) := by
  refine hrun.history (fun past node => ∃ m, node.manager = some m ∧ Tracks m node.pc ∧
    ((∃ e ∈ past, e.Claims) → m.Inspected)) ?_ ?_
  · rintro past node e node' ⟨m, hm, htracks, hpast⟩ ⟨hstep, hmirrors⟩
    obtain ⟨m', hm', htracks', hinspected⟩ := hstep.tracks hm htracks hmirrors
    refine ⟨m', hm', htracks', ?_⟩
    rintro ⟨e', he', hclaims⟩
    rcases List.mem_append.mp he' with hbefore | hlast
    · exact hinspected (Or.inr (hpast ⟨e', hbefore, hclaims⟩))
    · obtain rfl := List.mem_singleton.mp hlast
      exact hinspected (Or.inl hclaims)
  · unfold spawnLease at hstart
    split at hstart
    · cases hstart
    · obtain rfl := Option.some.inj hstart
      refine ⟨_, rfl, ⟨by simp, by simp, ?_, ?_⟩, by simp⟩
      · -- Nothing has been shown yet.
        rintro - ⟨d, hd, hversion⟩
        obtain rfl := Option.some.inj hd
        exact absurd rfl hversion
      · intro hvacates
        cases hvacates

/-- Whatever resource `init` has read: in every run whose steps avoid the three places
the diagnostics show the cached state between two calls, from the first successful
`ensure_claimed` on.  The first step that does not avoid them leaves diagnostics which
show something else. -/
theorem diagnostics_show_cache (hstart : spawnLease now lease = some start)
    (hrun : Run (fun node e node' => Operates profile node e node' ∧ node.Mirrors e)
      start events node) :
    ((∃ e ∈ events, e.Claims) → node.pc = .idle → node.Shows) ∧
      ∀ e node', Operates profile node e node' → ¬ node.Mirrors e → node'.pc = .idle →
        ¬ node'.Shows := by
  obtain ⟨m, hm, htracks, hinspected⟩ := tracks_of_run hstart hrun
  constructor
  · intro hclaims hidle
    exact ⟨m, hm, htracks.shown (by rw [hidle]; rfl) (hinspected hclaims)⟩
  · intro e node' hstep hmirrors hidle hshows
    exact hmirrors (hstep.mirrors_of_shows hm htracks hidle hshows)

/-- A step that neither calls `vacate`, nor waits for its patch, nor stands at the top of
the loop of `ensure_claimed`. -/
theorem mirrors_of_elsewhere {node : Node} {e : NodeEvent}
    (hpc : ∀ claimant params, node.pc ≠ .ensuring claimant params)
    (hinput : ∀ claimant, e.input ≠ .call (.vacate claimant))
    (hvacates : node.pc.vacates = false) : node.Mirrors e where
  returned := fun _ claimant params _ _ hensuring _ => absurd hensuring (hpc claimant params)
  current := fun _ claimant _ _ hcall _ => absurd hcall (hinput claimant)
  answered := fun _ _ hwaits => absurd (hvacates.symm.trans hwaits) Bool.false_ne_true

/-- Alice claims an unclaimed lease. -/
def aliceShown (claim : Claim) : List NodeEvent :=
  [⟨exampleNow, 1, .call (.ensureClaimed "alice" default), none⟩,
    ⟨exampleNow, 2, .resume, none⟩, ⟨exampleNow, 3, .resume, none⟩,
    ⟨exampleNow, 4, .response (.ok ⟨some "2", some aliceLease⟩),
      some (.ensureClaimed (.ok claim))⟩]

/-- Her claim is shown. -/
theorem alice_claim_shown :
    ∃ start node claim, spawnLease exampleNow ⟨some "1", some {}⟩ = some start ∧
      Run (fun node e node' => Operates .release node e node' ∧ node.Mirrors e) start
        (aliceShown claim) node ∧
      claim.holder = "alice" ∧ node.Shows := by
  -- No claim has been cached that `ensure_claimed` could return.
  have hacquires : Mirrors ⟨some ⟨⟨⟨"1", 0⟩, none⟩, some LeaseDiagnostics.new⟩,
      .ensuring "alice" default⟩ ⟨exampleNow, 2, .resume, none⟩ := by
    constructor
    · intro m claimant params claim hm _ hhead
      obtain rfl := Option.some.inj hm
      cases hhead
    · intro m claimant claim _ hcall
      cases hcall
    · intro m _ hwaits
      cases hwaits
  have hrun : ∃ node claim,
      Run (fun node e node' => Operates .release node e node' ∧ node.Mirrors e)
        ⟨some ⟨⟨⟨"1", 0⟩, none⟩, some LeaseDiagnostics.new⟩, .idle⟩ (aliceShown claim) node ∧
      node.pc = .idle ∧ claim.holder = "alice" :=
    ⟨_, _, .cons ⟨⟨⟨_, rfl, rfl, rfl⟩, by simp⟩, mirrors_of_elsewhere (by simp) (by simp) rfl⟩
      (.cons ⟨⟨⟨_, rfl, rfl, rfl⟩, by simp⟩, hacquires⟩
      (.cons ⟨⟨⟨_, rfl, rfl, rfl⟩, by simp⟩,
        mirrors_of_elsewhere (by simp) (by simp) rfl⟩
      (.cons ⟨⟨⟨_, rfl, rfl, rfl⟩, by simp⟩, mirrors_of_elsewhere (by simp) (by simp) rfl⟩
      (.nil _)))), rfl, rfl⟩
  obtain ⟨node, claim, hrun, hidle, hholder⟩ := hrun
  have hstart : spawnLease exampleNow ⟨some "1", some {}⟩ =
      some ⟨some ⟨⟨⟨"1", 0⟩, none⟩, some LeaseDiagnostics.new⟩, .idle⟩ := rfl
  refine ⟨_, node, claim, hstart, hrun, hholder,
    (diagnostics_show_cache hstart hrun).1 ?_ hidle⟩
  exact ⟨⟨exampleNow, 4, .response (.ok ⟨some "2", some aliceLease⟩),
    some (.ensureClaimed (.ok claim))⟩, by simp [aliceShown], claim, rfl⟩

/-- Bob calls `ensure_claimed` while alice holds the lease. -/
def bobRefused (claim : Claim) : List NodeEvent :=
  [⟨exampleNow, 1, .call (.ensureClaimed "bob" default), none⟩,
    ⟨exampleNow, 2, .resume, some (.ensureClaimed (.ok claim))⟩]

/-- Alice's claim is cached and returned, and nothing is shown. -/
theorem refusal_not_shown :
    ∃ start node m claim, spawnLease exampleNow ⟨some "2", some aliceLease⟩ = some start ∧
      Run (Operates .release) start (bobRefused claim) node ∧
      node = ⟨some m, .idle⟩ ∧ m.state.claim = some claim ∧
      m.diagnostics = some LeaseDiagnostics.new ∧ ¬ node.Shows := by
  refine ⟨_, _, _, _, rfl, .cons ⟨⟨_, rfl, rfl, rfl⟩, by simp⟩
    (.cons ⟨⟨_, rfl, rfl, rfl⟩, by simp⟩ (.nil _)), rfl, rfl, rfl, ?_⟩
  rintro ⟨m, hm, d, hd, -, hversion⟩
  obtain rfl := Option.some.inj hm
  obtain rfl := Option.some.inj hd
  cases hversion

end Runs

end Node

end Lease
end Kubert
