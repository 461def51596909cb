import Kubert.Lease.Election
import Kubert.Lease.Overflow

/-!
# A lease that is free to be taken

What a candidate of an election needs before it can take the lease over.

The recorded claim must be over, and so must the claim that its manager has cached, since
the task waits for its end.  A read then finds no claim, and the loop of `ensure_claimed`
goes on to a write in any case: it renews an own claim that is over as well.

The dates that are computed on the way must not leave the range of `chrono`.  On a clock
that starts after 1970 they do not, in any run, because all dates that are cached or
written are then later than that.

And the task must still be in its loop.  A task that sleeps wakes up before its claim
ends.
-/

namespace Kubert
namespace Lease

open Foundation

variable {ι : Type}

/-! ## Dates -/

/-- The claim that is cached ends, and the write that is awaited was made, after the
epoch. -/
structure Node.AfterEpoch (node : Node) : Prop where
  claims : ∀ m claim, node.manager = some m → m.state.claim = some claim →
    0 ≤ claim.expiry.nanos
  writes : ∀ id write params, node.pc = .claiming id write params →
    0 ≤ write.now.nanos ∧ 0 ≤ write.leaseDuration.nanos

theorem Node.AfterEpoch.step {profile : Profile} {now : DateTime} {id : Nat} {node : Node}
    {input : Input} {effect : Effect} (h : node.AfterEpoch) (hnow : 0 ≤ now.nanos)
    (hstep : node.step profile now id input = some effect) : effect.node.AfterEpoch where
  claims := by
    intro m claim hm hclaim
    have hchange := Node.step_stateChange hstep hm
    generalize m.state = state at hchange hclaim
    cases hchange with
    | kept hold => exact h.claims _ claim hold hclaim
    | dropped => cases hclaim
    | read _ hget =>
        obtain ⟨-, -, hcurrent⟩ := (get_ok hget).2.2.1 claim hclaim
        exact hnow.trans hcurrent.le
    | wrote hpc hfinish =>
        obtain rfl := Option.some.inj hclaim
        obtain ⟨hwrite, hduration⟩ := h.writes _ _ _ hpc
        rw [(ClaimWrite.finish_ok hfinish).2.2.2]
        exact Int.add_nonneg hwrite hduration
  writes := by
    intro awaited write params hpc
    have hsend : effect.send = some (.patch (.claim write)) := by
      have hawaits := Node.step_awaits hstep
      rw [Node.awaits_claim_iff.mpr ⟨params, hpc⟩] at hawaits
      obtain ⟨body, hbody, hpair⟩ := Option.map_eq_some_iff.mp hawaits.symm
      rw [hbody, (Prod.mk.inj hpair).2]
    cases Node.step_sends hstep hsend with
    | acquire _ _ hwrite =>
        obtain ⟨transitions, -, rfl⟩ := Option.map_eq_some_iff.mp hwrite
        exact ⟨hnow, ClaimParams.leaseDelta_nonneg _⟩
    | renew => exact ⟨hnow, ClaimParams.leaseDelta_nonneg _⟩

/-- What a read needs to decode the resource: a spec, whose duration is not negative. -/
def Readable (spec : Option LeaseSpec) : Prop :=
  ∃ s, spec = some s ∧ ∀ secs, s.leaseDurationSeconds = some secs → 0 ≤ secs.toInt

/-- A patch that is applied leaves the resource readable. -/
theorem Readable.applyTo {call : PatchCall} {spec : Option LeaseSpec} {spec' : LeaseSpec}
    (hwrite : ∀ write, call = .claim write → 0 ≤ write.leaseDuration.numSeconds)
    (happly : call.patch.applyTo spec = some spec') : Readable (some spec') := by
  obtain ⟨secs, transitions, hsecs, -, -, -, hfield, -⟩ := LeasePatch.applyTo_eq_some happly
  refine ⟨spec', rfl, ?_⟩
  intro n hn
  rw [hfield] at hn
  cases call with
  | claim write =>
      rw [PatchCall.patch, write.patch_renewal.2] at hsecs
      obtain ⟨k, rfl, hk, -⟩ := FieldPatch.decodeI32_value hsecs
      obtain rfl := Option.some.inj hn
      rw [hk]
      exact hwrite write rfl
  | vacate version claimant =>
      obtain rfl := Option.some.inj hsecs
      cases hn

/-- All dates that a manager computes with are after the epoch, and so is the clock. -/
structure Sys.AfterEpoch (s : Sys ι) : Prop where
  clock : 0 ≤ s.now.nanos
  nodes : ∀ i, (s.nodes i).AfterEpoch
  recorded : Readable s.server.value

theorem Sys.AfterEpoch.cases [DecidableEq ι] {profile : Profile} {s t : Sys ι} {a : Action ι}
    {ret : Option Return} (h : s.AfterEpoch)
    (hwrites : ∀ req ∈ s.requests, ∀ write, req.body = .patch (.claim write) →
      0 ≤ write.leaseDuration.numSeconds)
    (hcases : Sys.Cases profile s a t ret) : t.AfterEpoch := by
  cases hcases with
  | tick hle => exact ⟨h.clock.trans hle, h.nodes, h.recorded⟩
  | @node _ j input effect _ hstep =>
      refine ⟨h.clock, ?_, h.recorded⟩
      intro i
      by_cases hi : i = j
      · subst hi
        rw [Sys.advance_nodes_self]
        exact (h.nodes i).step h.clock hstep
      · change (Function.update s.nodes j effect.node i).AfterEpoch
        rw [Function.update_of_ne hi]
        exact h.nodes i
  | apply hmem hbody _ _ happly =>
      refine ⟨h.clock, h.nodes, Readable.applyTo ?_ happly⟩
      rintro write rfl
      exact hwrites _ hmem write hbody
  | serve | conflict | refuse | lose => exact ⟨h.clock, h.nodes, h.recorded⟩

/-! ## Claims that are over -/

/-- The recorded claim is over. -/
def Over (t : DateTime) (spec : Option LeaseSpec) : Prop :=
  ∀ holder expiry, holderOf spec = some holder → expiryOf spec = some expiry →
    expiry ≤ t.nanos

/-- The transitions that a resource is read to have. -/
def readTransitions (spec : Option LeaseSpec) : UInt16 :=
  transitionsFromI32 ((spec.bind LeaseSpec.leaseTransitions).getD 0)

/-- A read finds no claim where it is over. -/
theorem get_of_over {now : DateTime} {server : Server} (hreadable : Readable server.value)
    (hover : Over now server.value) :
    get now (.ok (leaseOf server)) =
      .ok ⟨⟨server.version, readTransitions server.value⟩, none⟩ := by
  obtain ⟨spec, hspec, hsecs⟩ := hreadable
  unfold Over at hover
  rw [hspec] at hover
  simp only [get, leaseOf, hspec, readTransitions, Option.bind_some]
  split
  · rename_i holder renewTime secs hholder hrenew hduration
    have hexpiry : expiryOf (some spec) = some (renewTime.nanos + secs.toInt * 1000000000) := by
      simp only [expiryOf, hrenew, hduration]
    have hreached := hover holder _ hholder hexpiry
    have hnot := hsecs secs hduration
    -- The sum lies between two dates.
    have hlower := renewTime.lower
    have hupper := now.upper
    obtain ⟨expiry, hnanos⟩ : ∃ expiry : DateTime,
        expiry.nanos = renewTime.nanos + (TimeDelta.seconds secs).nanos :=
      ⟨⟨renewTime.nanos + secs.toInt * 1000000000, by omega, by omega⟩, rfl⟩
    rw [DateTime.checkedAdd_eq_some hnanos]
    rw [TimeDelta.seconds_nanos] at hnanos
    have hle : expiry ≤ now := by
      rw [DateTime.le_def]
      omega
    simp only [hle, if_true]
  · rfl

/-- A write is due where no claim is cached or where it is over. -/
theorem due_of_over {now : DateTime} {state : State} {claimant : String}
    {params : ClaimParams}
    (hover : ∀ claim, state.claim = some claim →
      0 ≤ claim.expiry.nanos ∧ claim.expiry.nanos ≤ now.nanos)
    (hgrace : params.graceDelta.nanos ≤ 8334601228800000000000) :
    Due now state claimant params := by
  by_cases hown : ∃ claim, state.claim = some claim ∧ claim.holder = claimant
  · obtain ⟨claim, hclaim, hholder⟩ := hown
    obtain ⟨hepoch, hreached⟩ := hover claim hclaim
    have hnonneg : 0 ≤ params.graceDelta.nanos := by
      unfold ClaimParams.graceDelta
      cases hstd : TimeDelta.fromStd params.renewGracePeriod with
      | none => decide
      | some grace => exact TimeDelta.fromStd_nonneg hstd
    have hupper := claim.expiry.upper
    obtain ⟨renewAt, hrenewAt⟩ : ∃ renewAt : DateTime,
        renewAt.nanos = claim.expiry.nanos - params.graceDelta.nanos :=
      ⟨⟨claim.expiry.nanos - params.graceDelta.nanos, by omega, by omega⟩, rfl⟩
    refine ⟨.renew, ensureClaimedHead_eq_renew_iff.mpr ⟨claim, renewAt, hclaim, hholder,
      DateTime.checkedSub_eq_some hrenewAt, ?_⟩⟩
    omega
  · refine ⟨.acquire, ensureClaimedHead_eq_acquire_iff.mpr ?_⟩
    intro claim hclaim
    exact ⟨fun hholder => hown ⟨claim, hclaim, hholder⟩, (hover claim hclaim).2⟩

/-- A grace period that is no longer than a duration of an `int32` of seconds is short. -/
theorem graceDelta_le_of_fits {params : ClaimParams}
    (hfits : params.leaseDelta.numSeconds < 2147483648)
    (hgrace : params.renewGracePeriod.toNanos ≤ params.leaseDuration.toNanos) :
    params.graceDelta.nanos ≤ 8334601228800000000000 := by
  have hlt := TimeDelta.nanos_lt_of_numSeconds params.leaseDelta_nonneg hfits
  have hnanos := (ClaimParams.numSeconds_add_subsecNanos hfits).2
  have hle := params.graceDelta_le
  omega

/-- A patch whose integers fit their fields can be applied. -/
theorem LeasePatch.exists_applyTo {p : LeasePatch} {secs transitions : FieldPatch Int32}
    (hsecs : p.leaseDurationSeconds.decodeI32 = some secs)
    (htransitions : p.leaseTransitions.decodeI32 = some transitions)
    (spec : Option LeaseSpec) : ∃ spec', p.applyTo spec = some spec' := by
  simp only [LeasePatch.applyTo, hsecs, htransitions]
  exact ⟨_, rfl⟩

theorem FieldPatch.exists_decodeI32 {n : Int} (hlower : -2147483648 ≤ n)
    (hupper : n < 2147483648) : ∃ field, (FieldPatch.value n).decodeI32 = some field := by
  rw [FieldPatch.decodeI32, if_pos ⟨hlower, hupper⟩]
  exact ⟨_, rfl⟩

/-- A duration of seconds that fit an `int32` can be written. -/
theorem ClaimWrite.exists_applyTo {w : ClaimWrite} (hnonneg : 0 ≤ w.leaseDuration.numSeconds)
    (hfits : w.leaseDuration.numSeconds < 2147483648) (spec : Option LeaseSpec) :
    ∃ spec', w.patch.applyTo spec = some spec' := by
  obtain ⟨secs, hsecs⟩ := FieldPatch.exists_decodeI32 (by omega) hfits
  rw [← w.patch_renewal.2] at hsecs
  have hlt := w.transitions.toNat_lt
  obtain ⟨transitions, htransitions⟩ : ∃ transitions,
      w.patch.leaseTransitions.decodeI32 = some transitions := by
    unfold ClaimWrite.patch
    cases w.kind with
    | acquire => exact FieldPatch.exists_decodeI32 (by omega) (by omega)
    | renew => exact ⟨_, rfl⟩
  exact LeasePatch.exists_applyTo hsecs htransitions spec

/-- A write that the server admits gives its claimant a current claim. -/
theorem ClaimWrite.exists_finish (w : ClaimWrite) (server : Server)
    (hyears : w.now.SinceEpoch) (hpos : 0 < w.leaseDuration.nanos)
    (hfits : w.leaseDuration.numSeconds < 2147483648) :
    ∃ claim newMeta, w.finish (leaseOf server) = .ok (claim, newMeta) ∧
      claim.isCurrentFor w.claimant w.now = true := by
  obtain ⟨hlower, hupper⟩ := hyears
  have hlt := TimeDelta.nanos_lt_of_numSeconds hpos.le hfits
  obtain ⟨expiry, hexpiry⟩ : ∃ expiry : DateTime,
      expiry.nanos = w.now.nanos + w.leaseDuration.nanos :=
    ⟨⟨w.now.nanos + w.leaseDuration.nanos, by omega, by omega⟩, rfl⟩
  refine ⟨⟨w.claimant, expiry⟩, ⟨server.version, w.transitions⟩, ?_, ?_⟩
  · simp only [ClaimWrite.finish, DateTime.checkedAdd_eq_some hexpiry, leaseOf]
  · rw [Claim.isCurrentFor_iff]
    refine ⟨rfl, ?_⟩
    change w.now.nanos < expiry.nanos
    omega

/-- Nothing keeps the candidate from the lease at this time: the recorded claim and the
one that it has cached are over, and neither counts so many transitions that `acquire`
would panic on one more. -/
structure Vacant (profile : Profile) (t : DateTime) (s : Sys ι) (i : ι) : Prop where
  recorded : Over t s.server.value
  cached : ∀ m claim, (s.nodes i).manager = some m → m.state.claim = some claim →
    claim.expiry ≤ t
  counts : profile.succ (readTransitions s.server.value) ≠ none
  countsCached : ∀ m, (s.nodes i).manager = some m →
    profile.succ m.state.meta.transitions ≠ none

/-! ## Tasks and their managers -/

/-- The task is in its loop: the first claim has been shown, and it has neither met an
error nor begun to vacate the lease. -/
def Task.loops : Task → Bool
  | .selecting _ | .sleeping _ _ | .claiming | .publishing _ => true
  | .unspawned | .starting | .backingOff _ | .vacating | .finished | .failed _ => false

/-- A result never puts a task to sleep, and never spawns one. -/
theorem Task.receive?_spec (profile : Profile) (task : Task) (ret : Option Return) :
    (∀ claim wakeAt, task.receive? profile ret = .sleeping claim wakeAt →
      task = .sleeping claim wakeAt) ∧
      (task = .unspawned → task.receive? profile ret = .unspawned) := by
  cases ret with
  | none => exact ⟨fun _ _ htask => htask, fun htask => htask⟩
  | some ret =>
      refine ⟨?_, ?_⟩
      · intro claim wakeAt htask
        change task.receive profile ret = _ at htask
        unfold Task.receive at htask
        split at htask
        · cases htask
        · cases htask
        · cases htask
        · unfold Task.afterError at htask
          split at htask
          · cases htask
          · cases htask
          · cases htask
          · split at htask
            · cases htask
            · cases htask
          · cases htask
        · cases htask
        · cases htask
        · cases htask
        · exact htask
      · rintro rfl
        rfl

/-- A task that sleeps wakes up before its claim ends, and a task that was spawned has a
manager. -/
structure TaskSound (i : ι) (x : Spawned ι) : Prop where
  sleeps : ∀ claim wakeAt, x.task = .sleeping claim wakeAt → wakeAt ≤ claim.expiry.nanos
  managed : x.task ≠ .unspawned → (x.sys.nodes i).manager.isSome = true

section TaskSound

variable [DecidableEq ι] {profile : Profile} {i : ι} {claimant : String}
  {params : ClaimParams} {x y : Spawned ι}

/-- A manager that exists does not disappear from the system. -/
theorem Sys.Cases.manager_isSome {s t : Sys ι} {a : Action ι} {ret : Option Return}
    (hcases : Sys.Cases profile s a t ret) (hm : (s.nodes i).manager.isSome = true) :
    (t.nodes i).manager.isSome = true := by
  cases hcases with
  | @node _ j input effect _ hstep =>
      by_cases hi : i = j
      · subst hi
        rw [Sys.advance_nodes_self]
        exact Node.step_manager_isSome hstep hm
      · change ((Function.update s.nodes j effect.node i).manager).isSome = true
        rw [Function.update_of_ne hi]
        exact hm
  | tick | serve | apply | conflict | refuse | lose => exact hm

theorem TaskSound.outside {s : Sys ι} (h : TaskSound i x) {a : Action ι} {ret : Option Return}
    (hcases : Sys.Cases profile x.sys a s ret) : TaskSound i ⟨s, x.task, x.closed⟩ where
  sleeps := h.sleeps
  managed := fun htask => hcases.manager_isSome (h.managed htask)

/-- A call on the manager, which it must have for that. -/
theorem taskSound_of_invoke {op : Op} {task : Task}
    (htask : ∀ claim wakeAt, task ≠ .sleeping claim wakeAt)
    (hop : task ≠ .unspawned → op ≠ .init) (hinvoke : x.invoke profile i op task = some y) :
    TaskSound i y := by
  obtain ⟨effect, hstep, rfl⟩ := invoke_eq_some hinvoke
  obtain ⟨hsleeping, hunspawned⟩ := Task.receive?_spec profile task effect.ret
  refine ⟨?_, ?_⟩
  · intro claim wakeAt hsleeps
    exact absurd (hsleeping claim wakeAt hsleeps) (htask claim wakeAt)
  · intro hspawned
    have hnot := hop fun htask => hspawned (hunspawned htask)
    change ((x.sys.advance i effect).nodes i).manager.isSome = true
    rw [Sys.advance_nodes_self]
    cases Node.step_moves hstep with
    | init => exact absurd rfl hnot
    | withDiagnostics | sync | ensureClaimed | vacateSkipped | vacateSent => rfl

/-- Every action of the task keeps it sound. -/
theorem TaskSound.step {a : SpawnAction ι} (h : TaskSound i x) (hinside : a.isOutside = false)
    (hstep : x.step? profile i claimant params a = some y) : TaskSound i y := by
  have hensure : x.ensureClaimed profile i claimant params = some y → TaskSound i y :=
    taskSound_of_invoke (by simp) (by simp)
  have hvacate : x.vacate profile i claimant = some y → TaskSound i y :=
    taskSound_of_invoke (by simp) (by simp)
  cases a with
  | outside b => cases hinside
  | progress b =>
      obtain ⟨-, hrest⟩ := Option.ite_none_right_eq_some.mp hstep
      obtain ⟨⟨s, ret⟩, hperform, rfl⟩ := Option.map_eq_some_iff.mp hrest
      obtain ⟨hsleeping, hunspawned⟩ := Task.receive?_spec profile x.task ret
      refine ⟨fun claim wakeAt hsleeps => h.sleeps _ _ (hsleeping claim wakeAt hsleeps), ?_⟩
      intro hspawned
      exact (Sys.perform_cases hperform).manager_isSome
        (h.managed fun htask => hspawned (hunspawned htask))
  | prepare op =>
      obtain ⟨-, hrest⟩ := Option.ite_none_right_eq_some.mp hstep
      exact taskSound_of_invoke (by simp) (by simp) hrest
  | abandon =>
      obtain ⟨-, hrest⟩ := Option.ite_none_right_eq_some.mp hstep
      obtain ⟨⟨s, ret⟩, hperform, rfl⟩ := Option.map_eq_some_iff.mp hrest
      exact h.outside (Sys.perform_cases hperform)
  | spawn =>
      obtain ⟨-, hrest⟩ := Option.ite_none_right_eq_some.mp hstep
      exact taskSound_of_invoke (by simp) (by simp) hrest
  | poll =>
      simp only [Spawned.step?, Spawned.poll] at hstep
      split at hstep
      · rename_i claim htask
        have hmanaged := h.managed (by simp [htask])
        split at hstep
        · exact hvacate hstep
        · split at hstep
          · exact hensure hstep
          · rename_i hsleep
            obtain rfl := Option.some.inj hstep
            refine ⟨?_, fun _ => hmanaged⟩
            rintro _ _ ⟨⟩
            -- It sleeps only as long as the claim lasts.
            unfold Claim.expireWithGrace at hsleep ⊢
            split at hsleep
            · rename_i hle
              rw [if_pos hle]
              rw [DateTime.le_def] at hle
              omega
            · exact absurd rfl hsleep
      · split at hstep
        · exact hvacate hstep
        · split at hstep
          · exact hensure hstep
          · obtain rfl := Option.some.inj hstep
            exact h
      · cases hstep
  | retry =>
      simp only [Spawned.step?] at hstep
      split at hstep
      · exact hensure hstep
      · cases hstep
  | giveUp =>
      simp only [Spawned.step?] at hstep
      split at hstep
      · rename_i e htask
        obtain rfl := Option.some.inj hstep
        exact ⟨by simp, fun _ => h.managed (by simp [htask])⟩
      · cases hstep
  | publish =>
      simp only [Spawned.step?] at hstep
      split at hstep
      · rename_i claim htask
        split at hstep
        · exact hvacate hstep
        · obtain rfl := Option.some.inj hstep
          exact ⟨by simp, fun _ => h.managed (by simp [htask])⟩
      · cases hstep
  | dropReceivers =>
      obtain ⟨-, hrest⟩ := Option.ite_none_right_eq_some.mp hstep
      obtain rfl := Option.some.inj hrest
      exact ⟨h.sleeps, h.managed⟩

end TaskSound

end Lease
end Kubert
