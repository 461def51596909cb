import Kubert.Lease.Holder

/-!
# Counting transitions through a `u16`

The API field `leaseTransitions` is an `int32`, the cached `Meta.transitions` is
a `u16`.  `get` reads the field with a fallback to zero for values that do not
fit, and `acquire` writes the cached value plus one.  Since a patch is applied
only against the version at which the value was read, the cached value is the
*decoded* value of the resource that the patch replaces; so the counter is
right exactly as long as decoding and adding one are.

`appliedAcquire_counts_iff` is the exact condition for one step, and
`transitions_count_acquires` the resulting count for whole runs.
-/

namespace Kubert
namespace Lease

open Foundation

variable {ι : Type}

/-- The transitions that `get` decodes from a resource. -/
def decodedTransitions (spec : Option LeaseSpec) : UInt16 :=
  transitionsFromI32 ((spec.bind LeaseSpec.leaseTransitions).getD 0)

/-- Within the `u16` range decoding is exact. -/
theorem decodedTransitions_toNat {spec : Option LeaseSpec}
    (hnonneg : 0 ≤ transitionsOf spec) (hfits : transitionsOf spec < 65536) :
    ((decodedTransitions spec).toNat : Int) = transitionsOf spec := by
  unfold transitionsOf at hnonneg hfits ⊢
  unfold decodedTransitions transitionsFromI32
  rw [if_pos ⟨hnonneg, hfits⟩]
  rw [UInt16.toNat_ofNat_of_lt' (by simp only [UInt16.size]; omega)]
  omega

/-- Outside of it the fallback is zero. -/
theorem decodedTransitions_eq_zero {spec : Option LeaseSpec}
    (hlarge : 65536 ≤ transitionsOf spec) : decodedTransitions spec = 0 := by
  unfold transitionsOf at hlarge
  unfold decodedTransitions transitionsFromI32
  rw [if_neg (by omega)]

/-- The transitions are determined by their value on the server. -/
theorem decodedTransitions_of_transitionsOf {spec : Option LeaseSpec}
    {n : UInt16} (h : transitionsOf spec = n.toNat) :
    decodedTransitions spec = n := by
  have hlt := n.toNat_lt
  have hdecoded : ((decodedTransitions spec).toNat : Int) = transitionsOf spec :=
    decodedTransitions_toNat (by omega) (by omega)
  rw [h] at hdecoded
  exact UInt16.toNat_inj.mp (by omega)

/-- The successor, where it exists, is the successor modulo `2^16`. -/
theorem Profile.succ_toNat {profile : Profile} {n m : UInt16}
    (h : profile.succ n = some m) : m.toNat = (n.toNat + 1) % 65536 := by
  -- In a debug build the last value has no successor.
  have hm : m = n + 1 := by
    cases profile with
    | debug =>
        simp only [Profile.succ] at h
        split at h
        · cases h
        · exact (Option.some.inj h).symm
    | release => exact (Option.some.inj h).symm
  rw [hm, UInt16.toNat_add]
  rfl

/-- The cached transitions are the decoded ones; `acquire` writes their
successor, `renew` keeps them. -/
def counting (ι : Type) (profile : Profile) : Assertion ι where
  cached := fun _ _ state spec => state.meta.transitions = decodedTransitions spec
  sent := fun _ call spec =>
    match call with
    | .claim write =>
        match write.kind with
        | .acquire => profile.succ (decodedTransitions spec) = some write.transitions
        | .renew => write.transitions = decodedTransitions spec
    | .vacate _ _ => True
  wrote := fun call spec =>
    match call with
    | .claim write => write.transitions = decodedTransitions spec
    | .vacate _ _ => True

/-- The assertion is established by every read and write of the code. -/
theorem counting_sound (profile : Profile) (allowed : ι → Op → Prop) :
    (counting ι profile).Sound profile allowed where
  cached_mono := fun _ h => h
  sent_mono := fun _ h => h
  read := fun hget => (get_ok hget).2.1
  drop := fun _ _ _ h => h
  acquire := by
    intro i now state claimant params write spec _ _ hwrite hcached
    obtain ⟨transitions, hsucc, rfl⟩ := Option.map_eq_some_iff.mp hwrite
    change profile.succ (decodedTransitions spec) = some transitions
    rw [← hcached]
    exact hsucc
  renew := fun _ _ hcached => hcached
  vacate := fun _ _ _ _ _ => trivial
  apply := by
    intro now call spec spec' hsent happly
    cases call with
    | vacate version claimant => trivial
    | claim write =>
        change write.transitions = decodedTransitions (some spec')
        cases hkind : write.kind with
        | acquire =>
            obtain ⟨-, hvalue⟩ := ClaimWrite.applyTo_acquire hkind happly
            -- What was written is read back as it is, since it fits a `u16`.
            exact (decodedTransitions_of_transitionsOf hvalue).symm
        | renew =>
            simp only [counting, hkind] at hsent
            obtain ⟨-, hfield⟩ := ClaimWrite.applyTo_renew hkind happly
            rw [hsent]
            unfold decodedTransitions
            rw [Option.bind_some, hfield]
  finish := by
    intro i now write lease claim newMeta spec hfinish hwrote
    obtain ⟨-, htransitions, -, -⟩ := ClaimWrite.finish_ok hfinish
    change newMeta.transitions = decodedTransitions spec
    rw [htransitions]
    exact hwrote

/-- The action is the application of an acquire patch. -/
def Action.isAppliedAcquire : Action ι → Bool
  | .apply req _ =>
      match req.body with
      | .get => false
      | .patch patchCall => patchCall.isAcquire
  | _ => false

/-- What the action should add to the counter. -/
def Action.acquired (a : Action ι) : Int := if a.isAppliedAcquire then 1 else 0

variable [DecidableEq ι]

/-- Only an applied patch changes the server. -/
theorem Sys.Cases.server_eq {profile : Profile} {s t : Sys ι} {a : Action ι}
    {ret : Option Return} (hcases : Sys.Cases profile s a t ret)
    (happly : ∀ req version, a ≠ .apply req version) : t.server = s.server := by
  cases hcases with
  | tick => rfl
  | node => rfl
  | serve => rfl
  | apply => exact absurd rfl (happly _ _)
  | conflict => rfl
  | refuse => rfl
  | lose => rfl

/-- The counter is never negative if it does not start negative. -/
def NonNegative (s : Sys ι) : Prop := 0 ≤ transitionsOf s.server.value

/-- One step, from a state in which the cached values are justified: an applied
acquire writes the successor of the decoded value, everything else leaves the
counter alone. -/
theorem transitions_step {profile : Profile} {s t : Sys ι} {a : Action ι}
    (hknows : Knowledge (counting ι profile) anyCall s)
    (hstep : Sys.Step profile s a t) :
    (a.isAppliedAcquire = true ∧ transitionsOf t.server.value =
        (((decodedTransitions s.server.value).toNat + 1) % 65536 : Nat)) ∨
      (a.isAppliedAcquire = false ∧
        transitionsOf t.server.value = transitionsOf s.server.value) := by
  obtain ⟨ret, hcases⟩ := hstep.cases
  by_cases happly : ∃ req version, a = .apply req version
  · obtain ⟨req, version, rfl⟩ := happly
    cases hcases with
    | node hfeeds _ => cases hfeeds
    | @apply _ _ call spec hmem hbody hversion hnew happly =>
        have hsent := (hknows.sent req hmem call hbody).elim hversion
        have hacquire : (Action.apply req version).isAppliedAcquire =
            call.isAcquire := by
          simp only [Action.isAppliedAcquire, hbody]
        rw [hacquire]
        change (_ ∧ transitionsOf (some spec) = _) ∨
          (_ ∧ transitionsOf (some spec) = _)
        cases call with
        | vacate version claimant =>
            refine Or.inr ⟨rfl, ?_⟩
            unfold transitionsOf
            rw [Option.bind_some, (applyTo_vacate happly).2.2]
        | claim write =>
            cases hkind : write.kind with
            | renew =>
                refine Or.inr ⟨by simp [PatchCall.isAcquire, hkind], ?_⟩
                unfold transitionsOf
                rw [Option.bind_some, (ClaimWrite.applyTo_renew hkind happly).2]
            | acquire =>
                refine Or.inl ⟨by simp [PatchCall.isAcquire, hkind], ?_⟩
                simp only [counting, hkind] at hsent
                rw [(ClaimWrite.applyTo_acquire hkind happly).2,
                  Profile.succ_toNat hsent]
  · have hne : ∀ req version, a ≠ .apply req version := by
      intro req version heq
      exact happly ⟨req, version, heq⟩
    refine Or.inr ⟨?_, by rw [hcases.server_eq hne]⟩
    cases a with
    | apply req version => exact absurd rfl (hne req version)
    | _ => rfl

/-- The counter stays non-negative. -/
theorem nonNegative_step {profile : Profile} {s t : Sys ι} {a : Action ι}
    (hknows : Knowledge (counting ι profile) anyCall s) (hnonneg : NonNegative s)
    (hstep : Sys.Step profile s a t) : NonNegative t := by
  unfold NonNegative at hnonneg ⊢
  rcases transitions_step hknows hstep with ⟨-, hvalue⟩ | ⟨-, hvalue⟩
  · rw [hvalue]
    omega
  · rw [hvalue]
    exact hnonneg

/-- A step adds to the counter what it should, if and only if it does not apply
an acquire to a value that a `u16` cannot count beyond. -/
theorem appliedAcquire_counts_iff {profile : Profile} {s t : Sys ι}
    {a : Action ι} (hknows : Knowledge (counting ι profile) anyCall s)
    (hnonneg : NonNegative s) (hstep : Sys.Step profile s a t) :
    transitionsOf t.server.value = transitionsOf s.server.value + a.acquired ↔
      (a.isAppliedAcquire = true → transitionsOf s.server.value < 65535) := by
  unfold NonNegative at hnonneg
  rcases transitions_step hknows hstep with ⟨hacquire, hvalue⟩ | ⟨hother, hvalue⟩
  · simp only [Action.acquired, hacquire, if_true, true_imp_iff]
    rw [hvalue]
    constructor
    · intro hcounts
      by_contra hlarge
      rcases Int.lt_or_le (transitionsOf s.server.value) 65536 with hlt | hge
      · -- `65535 + 1` wraps to zero.
        have hdecoded := decodedTransitions_toNat hnonneg hlt
        omega
      · -- The fallback made the cached value zero.
        rw [decodedTransitions_eq_zero hge] at hcounts
        change (1 : Int) = _ at hcounts
        omega
    · intro hlt
      have hdecoded := decodedTransitions_toNat hnonneg (by omega)
      omega
  · simp [Action.acquired, hother, hvalue]

/-- The steps that do not apply an acquire to a value of 65535 or more. -/
def Sys.StepBelow (profile : Profile) (s : Sys ι) (a : Action ι) (t : Sys ι) :
    Prop :=
  Sys.Step profile s a t ∧
    (a.isAppliedAcquire = true → transitionsOf s.server.value < 65535)

/-- What the runs are shown to keep: the cached values are justified and the
counter is not negative. -/
theorem counting_run {profile : Profile} {now : DateTime} {version : String}
    {spec : Option LeaseSpec} {actions : List (Action ι)} {s : Sys ι}
    (hstart : 0 ≤ transitionsOf spec)
    (hrun : Run (Sys.Step profile) (Sys.initial now version spec) actions s) :
    Knowledge (counting ι profile) anyCall s ∧ NonNegative s := by
  refine hrun.invariant
    (fun s => Knowledge (counting ι profile) anyCall s ∧ NonNegative s)
    ?_ ⟨Knowledge.initial now version spec, hstart⟩
  intro s a t hinv hstep
  have hobeys : a.Obeys anyCall := by cases a <;> trivial
  exact ⟨hinv.1.step (counting_sound profile anyCall) ⟨hstep, hobeys⟩,
    nonNegative_step hinv.1 hinv.2 hstep⟩

omit [DecidableEq ι] in
/-- The contributions of the actions add up to the number of applied
acquires. -/
theorem sum_acquired (actions : List (Action ι)) :
    (actions.map Action.acquired).sum =
      actions.countP Action.isAppliedAcquire := by
  induction actions with
  | nil => rfl
  | cons a actions ih =>
      rw [List.map_cons, List.sum_cons, ih, List.countP_cons]
      cases ha : a.isAppliedAcquire with
      | false => simp [Action.acquired, ha]
      | true =>
          simp only [Action.acquired, ha, if_true]
          omega

/-- The value of the counter along runs that never apply an acquire to a value
of 65535 or more. -/
theorem transitions_of_runBelow {profile : Profile} {s t : Sys ι}
    {actions : List (Action ι)}
    (hknows : Knowledge (counting ι profile) anyCall s) (hnonneg : NonNegative s)
    (hrun : Run (Sys.StepBelow profile) s actions t) :
    transitionsOf t.server.value =
      transitionsOf s.server.value + actions.countP Action.isAppliedAcquire := by
  rw [← sum_acquired]
  refine hrun.accumulate
    (fun s => Knowledge (counting ι profile) anyCall s ∧ NonNegative s)
    (fun s => transitionsOf s.server.value) Action.acquired ?_ ?_ ⟨hknows, hnonneg⟩
  · intro s a t hinv hstep
    have hobeys : a.Obeys anyCall := by cases a <;> trivial
    exact ⟨hinv.1.step (counting_sound profile anyCall) ⟨hstep.1, hobeys⟩,
      nonNegative_step hinv.1 hinv.2 hstep.1⟩
  · intro s a t hinv hstep
    exact (appliedAcquire_counts_iff hinv.1 hinv.2 hstep.1).mpr hstep.2

/-- Exactly when `leaseTransitions` counts.  In every reachable state of every
run, a step adds one for an applied acquire and nothing otherwise if and only if
it does not apply an acquire to a value of 65535 or more; and along every run
made of such steps the counter is the starting value plus the number of applied
acquires, and never goes back. -/
theorem transitions_count_acquires (profile : Profile) {now : DateTime}
    {version : String} {spec : Option LeaseSpec}
    (hstart : 0 ≤ transitionsOf spec) :
    (∀ (actions : List (Action ι)) (s t : Sys ι) (a : Action ι),
      Run (Sys.Step profile) (Sys.initial now version spec) actions s →
      Sys.Step profile s a t →
      (transitionsOf t.server.value =
          transitionsOf s.server.value + a.acquired ↔
        (a.isAppliedAcquire = true → transitionsOf s.server.value < 65535))) ∧
    (∀ (actions : List (Action ι)) (s : Sys ι),
      Run (Sys.StepBelow profile) (Sys.initial now version spec) actions s →
      transitionsOf s.server.value =
          transitionsOf spec + actions.countP Action.isAppliedAcquire ∧
        ∀ (later : List (Action ι)) (t : Sys ι),
          Run (Sys.StepBelow profile) s later t →
          transitionsOf s.server.value ≤ transitionsOf t.server.value) := by
  constructor
  · intro actions s t a hrun hstep
    obtain ⟨hknows, hnonneg⟩ := counting_run hstart hrun
    exact appliedAcquire_counts_iff hknows hnonneg hstep
  · intro actions s hrun
    -- Such runs are runs, so that what holds in every reachable state holds here.
    have hplain := hrun.mono fun _ _ _ hstep => hstep.1
    obtain ⟨hknows, hnonneg⟩ := counting_run hstart hplain
    have htotal := transitions_of_runBelow (Knowledge.initial now version spec)
      hstart hrun
    refine ⟨htotal, ?_⟩
    intro later t hlater
    rw [transitions_of_runBelow hknows hnonneg hlater]
    omega

/-- One step, if it meets the condition of `StepBelow`. -/
def Sys.stepBelow? (profile : Profile) (s : Sys ι) (a : Action ι) :
    Option (Sys ι) :=
  if a.isAppliedAcquire = true → transitionsOf s.server.value < 65535 then
    s.step? profile a
  else none

/-- A first claim on a lease without transitions makes the counter one. -/
theorem alice_counts_once :
    ∃ s : Sys Bool,
      Run (Sys.StepBelow .release) exampleStart aliceClaims s ∧
      transitionsOf s.server.value = 1 := by
  obtain ⟨s, hs⟩ := Option.isSome_iff_exists.mp
    (show (execAll (Sys.stepBelow? .release) exampleStart
      aliceClaims).isSome = true by decide +kernel)
  have hrun : Run (Sys.StepBelow .release) exampleStart aliceClaims s := by
    refine run_of_execAll (fun s a t h => ?_) hs
    unfold Sys.stepBelow? at h
    split at h
    · rename_i hbelow
      exact ⟨h, hbelow⟩
    · cases h
  have hcount : transitionsOf s.server.value = transitionsOf (some {}) +
      (aliceClaims.countP Action.isAppliedAcquire : Int) :=
    ((transitions_count_acquires .release (by decide)).2 aliceClaims s hrun).1
  refine ⟨s, hrun, ?_⟩
  rw [hcount]
  decide +kernel

/-- The start of a run in which the counter already stands at 65536. -/
def exampleLargeStart : Sys Bool :=
  Sys.initial exampleNow "1" (some { leaseTransitions := some 65536 })

/-- Alice's manager reads the resource and gets ready to claim it. -/
def aliceReady : List (Action Bool) :=
  [.call false .init, .serve ⟨0, false, .get⟩,
    .deliver false (.ok ⟨some "1", some { leaseTransitions := some 65536 }⟩),
    .call false (.ensureClaimed "alice" default), .resume false, .resume false]

/-- The 65537th acquisition sets the counter back to one: `get` falls back to
zero for 65536, and `acquire` adds one to that. -/
theorem transitions_fall_back_from_65536 :
    ∃ s t : Sys Bool,
      Run (Sys.Step .release) exampleLargeStart aliceReady s ∧
      Sys.Step .release s
        (.apply ⟨4, false, .patch (.claim aliceAcquire)⟩ "2") t ∧
      transitionsOf s.server.value = 65536 ∧
      transitionsOf t.server.value = 1 := by
  obtain ⟨s, t, hs, hstep, ht⟩ := exists_execAll_step
    (show (execAll (Sys.step? .release) exampleLargeStart
      (aliceReady ++
        [.apply ⟨4, false, .patch (.claim aliceAcquire)⟩ "2"])).isSome = true by
      decide +kernel)
  have hbefore : transitionsOf s.server.value = 65536 :=
    eq_of_execAll_map (fun s : Sys Bool => transitionsOf s.server.value) hs
      (by decide +kernel)
  have hafter : transitionsOf t.server.value = 1 :=
    eq_of_execAll_map (fun s : Sys Bool => transitionsOf s.server.value) ht
      (by decide +kernel)
  exact ⟨s, t, run_of_execAll (fun _ _ _ h => h) hs, hstep, hbefore, hafter⟩

end Lease
end Kubert
