import Kubert.Lease.MutualExclusion
import Kubert.Lease.Relinquish

/-!
# Leader election

Processes that compete for a lease hand a manager each to `LeaseManager::spawn`, under
a claimant of their own and without having claimed with it before, and look at the
receiver that it returns: whoever finds a claim there that is current for itself takes
itself for the leader.

The read that breaks mutual exclusion (`MutualExclusion`) needs a manager that reads the
resource again at a version that it has already made a patch against.  The task of
`spawn` does not do that: it reads only after a conflict, when that version is gone, and
after `vacate` it is done.  So a read that is awaited is safe, in every run and without
any condition, and no two receivers show a claim that is current for their own claimant.

A receiver may lag behind its manager, which renews its claim or finds it changed before
the task sends the result.  What was shown to a candidate as its own claim `Stands` until
it expires: the manager's claim lasts at least as long.
-/

namespace Kubert
namespace Lease

open Foundation

variable {ι : Type}

/-! ## Candidates -/

/-- What goes into the channel of the receivers when the task goes from one place to
another: `spawn` makes the channel with the first claim, and the loop sends the later
ones. -/
def Task.sends : Task → Task → Option Claim
  | .starting, .selecting claim => some claim
  | .publishing _, .selecting claim => some claim
  | _, _ => none

theorem Task.sends_eq_some {old new : Task} {claim : Claim}
    (h : Task.sends old new = some claim) : new = .selecting claim := by
  unfold Task.sends at h
  split at h
  · rw [Option.some.inj h]
  · rw [Option.some.inj h]
  · cases h

/-- The action is one of everybody else, seen from the task. -/
def SpawnAction.isOutside : SpawnAction ι → Bool
  | .outside _ => true
  | _ => false

/-- The managers with the server and the clock, and for every candidate its task, whether
all its receivers have been dropped, and the value of their channel. -/
structure Election (ι : Type) where
  sys : Sys ι
  tasks : ι → Task
  closed : ι → Bool
  shown : ι → Option Claim

/-- One atomic action, of the server or the clock, or of a candidate. -/
inductive ElectionAction (ι : Type)
  | world (a : Action ι)
  | candidate (i : ι) (a : SpawnAction ι)

namespace Election

/-- Nobody has begun. -/
def initial (now : DateTime) (version : String) (spec : Option LeaseSpec) : Election ι :=
  ⟨Sys.initial now version spec, fun _ => .unspawned, fun _ => false, fun _ => none⟩

/-- The system with the task of one candidate. -/
def view (x : Election ι) (i : ι) : Spawned ι := ⟨x.sys, x.tasks i, x.closed i⟩

variable [DecidableEq ι]

section Steps

variable (profile : Profile) (claimantOf : ι → String) (paramsOf : ι → ClaimParams)

/-- The state after one action; `none` if the action is not possible. -/
def step? (x : Election ι) : ElectionAction ι → Option (Election ι)
  | .world a =>
      if a.actor = none then
        (x.sys.perform profile a).map fun result => { x with sys := result.1 }
      else none
  | .candidate i a =>
      if a.isOutside then none
      else
        ((x.view i).step? profile i (claimantOf i) (paramsOf i) a).map fun y =>
          { sys := y.sys
            tasks := Function.update x.tasks i y.task
            closed := Function.update x.closed i y.closed
            shown := Function.update x.shown i
              ((Task.sends (x.tasks i) y.task).or (x.shown i)) }

/-- The step relation, on a clock that is read in microseconds. -/
def Step (x : Election ι) (a : ElectionAction ι) (y : Election ι) : Prop :=
  x.step? profile claimantOf paramsOf a = some y ∧ ∀ b, a = .world b → b.InMicros

end Steps

end Election

/-! ## What a candidate does to the system -/

section Performs

variable [DecidableEq ι] {profile : Profile} {i : ι} {claimant : String}
  {params : ClaimParams} {x y : Spawned ι}

/-- An action of a task leaves the system alone, or is one action of its manager with
the arguments of `spawn`; it calls `vacate` only when nobody listens, and receivers that
are dropped do not come back. -/
inductive Performs (profile : Profile) (i : ι) (claimant : String) (params : ClaimParams)
    (x y : Spawned ι) : Prop
  | nothing (hsys : y.sys = x.sys) (hclosed : x.closed = true → y.closed = true)
  | action {b : Action ι} {ret : Option Return}
      (hperform : x.sys.perform profile b = some (y.sys, ret)) (hactor : b.actor = some i)
      (hown : ∀ j op, b = .call j op → own claimant params op)
      (hvacate : ∀ j c, b = .call j (.vacate c) → x.closed = true)
      (hclosed : x.closed = true → y.closed = true)

theorem performs_of_invoke {op : Op} {task : Task}
    (hinvoke : x.invoke profile i op task = some y) (hown : own claimant params op)
    (hvacate : ∀ c, op = .vacate c → x.closed = true) :
    Performs profile i claimant params x y := by
  obtain ⟨⟨t, ret⟩, hperform, rfl⟩ := Option.map_eq_some_iff.mp hinvoke
  refine .action hperform rfl ?_ ?_ id
  · rintro j op' ⟨⟩
    exact hown
  · rintro j c ⟨⟩
    exact hvacate c rfl

theorem performs_of_step {a : SpawnAction ι} (hinside : a.isOutside = false)
    (hstep : x.step? profile i claimant params a = some y) :
    Performs profile i claimant params x y := by
  have hensure : ∀ {task}, x.invoke profile i (.ensureClaimed claimant params) task = some y →
      Performs profile i claimant params x y :=
    fun hinvoke => performs_of_invoke hinvoke ⟨rfl, rfl⟩ (by simp)
  have hvacate : x.closed = true → x.vacate profile i claimant = some y →
      Performs profile i claimant params x y :=
    fun hclosed hinvoke => performs_of_invoke hinvoke rfl fun _ _ => hclosed
  cases a with
  | outside b => cases hinside
  | progress b =>
      obtain ⟨⟨hactor, hcontinues⟩, hrest⟩ := Option.ite_none_right_eq_some.mp hstep
      obtain ⟨⟨t, ret⟩, hperform, rfl⟩ := Option.map_eq_some_iff.mp hrest
      refine .action hperform hactor ?_ ?_ id
      · rintro j op rfl
        cases hcontinues
      · rintro j c rfl
        cases hcontinues
  | prepare op =>
      obtain ⟨⟨-, hprepares⟩, hrest⟩ := Option.ite_none_right_eq_some.mp hstep
      refine performs_of_invoke hrest ?_ ?_
      · cases op with
        | init | withDiagnostics | sync => trivial
        | ensureClaimed | vacate => cases hprepares
      · rintro c rfl
        cases hprepares
  | abandon =>
      obtain ⟨-, hrest⟩ := Option.ite_none_right_eq_some.mp hstep
      obtain ⟨⟨t, ret⟩, hperform, rfl⟩ := Option.map_eq_some_iff.mp hrest
      exact .action hperform rfl (by simp) (by simp) id
  | spawn =>
      obtain ⟨-, hrest⟩ := Option.ite_none_right_eq_some.mp hstep
      exact hensure hrest
  | poll =>
      simp only [Spawned.step?, Spawned.poll] at hstep
      split at hstep
      · split at hstep
        · rename_i hclosed
          exact hvacate hclosed hstep
        · split at hstep
          · exact hensure hstep
          · obtain rfl := Option.some.inj hstep
            exact .nothing rfl id
      · split at hstep
        · rename_i hclosed
          exact hvacate hclosed hstep
        · split at hstep
          · exact hensure hstep
          · obtain rfl := Option.some.inj hstep
            exact .nothing rfl id
      · cases hstep
  | retry =>
      simp only [Spawned.step?] at hstep
      split at hstep
      · exact hensure hstep
      · cases hstep
  | giveUp =>
      simp only [Spawned.step?] at hstep
      split at hstep
      · obtain rfl := Option.some.inj hstep
        exact .nothing rfl id
      · cases hstep
  | publish =>
      simp only [Spawned.step?] at hstep
      split at hstep
      · split at hstep
        · rename_i hclosed
          exact hvacate hclosed hstep
        · obtain rfl := Option.some.inj hstep
          exact .nothing rfl id
      · cases hstep
  | dropReceivers =>
      obtain ⟨-, hrest⟩ := Option.ite_none_right_eq_some.mp hstep
      obtain rfl := Option.some.inj hrest
      exact .nothing rfl fun _ => rfl

end Performs

/-! ## Reads that are awaited are safe -/

/-- A read of a clean manager is safe. -/
theorem Clean.safeRead {claimantOf : ι → String} {s : Sys ι} {i : ι} (hclean : Clean s i) :
    SafeRead claimantOf s i := by
  intro expiry _ _ _ req hreq hsender call spec hbody hversion
  exact absurd hversion (hclean req hreq hsender call hbody)

namespace Exclusive

variable [DecidableEq ι] {profile : Profile} {claimantOf : ι → String}
  {paramsOf : ι → ClaimParams} {s t : Sys ι} {a : Action ι}

/-- Where managers await reads only when they are clean, every step keeps beliefs
backed. -/
theorem step_of_clean (hdistinct : Function.Injective claimantOf)
    (hwhole : ∀ i, (paramsOf i).leaseDuration.WholeSeconds)
    (hgrace : ∀ i, (paramsOf i).renewGracePeriod.toNanos ≤ (paramsOf i).leaseDuration.toNanos)
    (hinv : Exclusive claimantOf paramsOf s)
    (hclean : ∀ i id, (s.nodes i).awaits = some (id, .get) → Clean s i)
    (hstep : Sys.StepServing profile claimantOf paramsOf s a t) :
    Exclusive claimantOf paramsOf t := by
  refine hinv.step hdistinct hwhole hgrace ⟨hstep, ?_⟩
  rintro req rfl hawaits
  obtain ⟨ret, hcases⟩ := hstep.1.1.cases
  cases hcases with
  | node hfeeds => cases hfeeds
  | serve _ hbody =>
      rw [hbody] at hawaits
      exact (hclean _ _ hawaits).safeRead

end Exclusive

/-! ## What was shown stands -/

/-- An answer that the manager awaits leaves it a claim of its own that lasts at least
this long. -/
def AnswerCovers (claimant : String) (expiry : Int) (lease : LeaseResource) : Body → Prop
  | .get => Covers claimant expiry lease.spec
  | .patch (.claim write) =>
      write.claimant = claimant ∧ expiry ≤ write.now.nanos + write.leaseDuration.nanos
  | .patch (.vacate _ _) => True

/-- Until this expiry the manager has a claim of its own cached that lasts at least as
long, and no answer that it awaits changes that. -/
structure Stands (claimant : String) (expiry : Int) (s : Sys ι) (i : ι) : Prop where
  cached : s.now.nanos < expiry → ∃ m claim, (s.nodes i).manager = some m ∧
    m.state.claim = some claim ∧ claim.holder = claimant ∧ expiry ≤ claim.expiry.nanos
  answers : s.now.nanos < expiry → ∀ id body lease, (s.nodes i).awaits = some (id, body) →
    ⟨⟨id, i, body⟩, .ok lease⟩ ∈ s.responses → AnswerCovers claimant expiry lease body

/-- A claim that is cached between two calls stands. -/
theorem Stands.of_resting {s : Sys ι} {i : ι} {claimant : String} {claim : Claim}
    (hrest : Resting s i claimant claim) (hown : claim.holder = claimant) :
    Stands claimant claim.expiry.nanos s i := by
  obtain ⟨hidle, m, hm, hclaim, -⟩ := hrest
  refine ⟨fun _ => ⟨m, claim, hm, hclaim, hown, le_refl _⟩, ?_⟩
  intro _ id body lease hawaits
  rw [Node.awaits, hidle] at hawaits
  cases hawaits

section Stands

variable [DecidableEq ι] {profile : Profile} {claimantOf : ι → String}
  {paramsOf : ι → ClaimParams} {s : Sys ι} {i : ι} {expiry : Int}

omit [DecidableEq ι] in
/-- What stands is recorded, and endures. -/
theorem Stands.backed (h : Stands (claimantOf i) expiry s i)
    (hinv : Exclusive claimantOf paramsOf s) (hunexpired : s.now.nanos < expiry) :
    ∃ later, expiry ≤ later ∧ Covers (claimantOf i) later s.server.value ∧
      Endures s i (claimantOf i) later := by
  obtain ⟨m, claim, hm, hclaim, hown, hle⟩ := h.cached hunexpired
  have hbelieves : Believes s i (claimantOf i) claim.expiry.nanos := hown ▸ .cached hm hclaim
  exact ⟨_, hle, hinv.backed i _ hbelieves (lt_of_lt_of_le hunexpired hle)⟩

omit [DecidableEq ι] in
theorem Covers.mono {claimant : String} {later : Int} {spec : Option LeaseSpec}
    (hcovers : Covers claimant later spec) (hle : expiry ≤ later) :
    Covers claimant expiry spec := by
  obtain ⟨hholder, e, hexpiry, hlater⟩ := hcovers
  exact ⟨hholder, e, hexpiry, hle.trans hlater⟩

/-- The manager goes on, with anything but `vacate`. -/
theorem Stands.advance {claimant : String} {a : Action ι} {input : Input} {effect : Effect}
    (h : Stands claimant expiry s i) (hnumbered : s.Numbered) (hfeeds : s.Feeds a i input)
    (hstep : (s.nodes i).step profile s.now s.nextId input = some effect)
    (hvacate : ∀ c, a ≠ .call i (.vacate c)) :
    Stands claimant expiry (s.advance i effect) i := by
  constructor
  · intro hunexpired
    obtain ⟨m, claim, hm, hclaim, hown, hle⟩ := h.cached hunexpired
    have hsome := Node.step_manager_isSome hstep (by rw [hm]; rfl)
    obtain ⟨m', hm'⟩ := Option.isSome_iff_exists.mp hsome
    rw [Sys.advance_nodes_self]
    suffices ∃ claim', m'.state.claim = some claim' ∧ claim'.holder = claimant ∧
        expiry ≤ claim'.expiry.nanos by
      obtain ⟨claim', hrest⟩ := this
      exact ⟨m', claim', hm', hrest⟩
    have hchange := Node.step_stateChange hstep hm'
    generalize m'.state = state at hchange
    cases hchange with
    | kept hsame =>
        rw [hm] at hsame
        obtain rfl := Option.some.inj hsame
        exact ⟨claim, hclaim, hown, hle⟩
    | dropped =>
        cases hfeeds with
        | call => exact absurd rfl (hvacate _)
    | @read id caller lease _ hpc hget =>
        have hawaits := Node.awaits_get_iff.mpr ⟨_, hpc⟩
        obtain ⟨hholder, e, hexpiry, hlater⟩ :=
          h.answers hunexpired _ _ _ hawaits (hfeeds.delivered hawaits)
        obtain ⟨-, -, hread, hnone⟩ := get_ok hget
        cases hstate : state.claim with
        | none =>
            have hover := hnone hstate _ e hholder hexpiry
            change s.now.nanos < expiry at hunexpired
            omega
        | some claim' =>
            obtain ⟨hholder', hexpiry', -⟩ := hread claim' hstate
            rw [hholder] at hholder'
            rw [hexpiry] at hexpiry'
            refine ⟨claim', rfl, (Option.some.inj hholder').symm, ?_⟩
            rw [← Option.some.inj hexpiry']
            exact hlater
    | @wrote id write params lease claim' newMeta hpc hfinish =>
        have hawaits := Node.awaits_claim_iff.mpr ⟨_, hpc⟩
        obtain ⟨hclaimant, hlater⟩ :=
          h.answers hunexpired _ _ _ hawaits (hfeeds.delivered hawaits)
        obtain ⟨-, -, hholder, hexpiry⟩ := ClaimWrite.finish_ok hfinish
        exact ⟨claim', rfl, hholder.trans hclaimant, hexpiry ▸ hlater⟩
  · -- A request that has just been sent has no answer yet.
    intro _ id body lease hawaits hresponse
    rw [Sys.advance_nodes_self] at hawaits
    obtain rfl := Node.step_awaits_id hstep hawaits
    exact absurd (hnumbered.response _ hresponse) (lt_irrefl _)

/-- Whatever happens, what was shown stands, as long as the manager does not call
`vacate`. -/
theorem Stands.step (h : Stands (claimantOf i) expiry s i)
    (hinv : Exclusive claimantOf paramsOf s)
    (hwhole : ∀ i, (paramsOf i).leaseDuration.WholeSeconds) {a : Action ι} {t : Sys ι}
    {ret : Option Return} (hcases : Sys.Cases profile s a t ret)
    (hvacate : ∀ c, a ≠ .call i (.vacate c)) : Stands (claimantOf i) expiry t i := by
  -- A new answer that is awaited must leave the manager its claim.
  have hanswer : ∀ (u : Sys ι) (req : Request ι) (result : Except Error LeaseResource),
      u.nodes = s.nodes → u.now = s.now → u.responses = ⟨req, result⟩ :: s.responses →
      (s.now.nanos < expiry → req.sender = i → ∀ lease, result = .ok lease →
        AnswerCovers (claimantOf i) expiry lease req.body) →
      Stands (claimantOf i) expiry u i := by
    intro u req result hnodes hnow hresponses hnew
    constructor
    · rw [hnodes, hnow]
      exact h.cached
    · rw [hnodes, hnow, hresponses]
      intro hunexpired id body lease hawaits hresponse
      rcases List.mem_cons.mp hresponse with hhead | hold
      · obtain ⟨rfl, rfl⟩ := Response.mk.inj hhead
        exact hnew hunexpired rfl lease rfl
      · exact h.answers hunexpired id body lease hawaits hold
  cases hcases with
  | @tick now hle =>
      have hmono := (DateTime.le_def s.now now).mp hle
      exact ⟨fun hunexpired => h.cached (lt_of_le_of_lt hmono hunexpired),
        fun hunexpired => h.answers (lt_of_le_of_lt hmono hunexpired)⟩
  | @node _ j input effect hfeeds hnode =>
      by_cases hj : j = i
      · subst hj
        exact h.advance hinv.numbered hfeeds hnode hvacate
      · have hsame : (s.advance j effect).nodes i = s.nodes i := by
          simp [Sys.advance, Ne.symm hj]
        constructor
        · rw [hsame]
          exact h.cached
        · rw [hsame]
          exact h.answers
  | @serve req hmem hbody =>
      refine hanswer _ req _ rfl rfl rfl ?_
      rintro hunexpired - lease ⟨⟩
      obtain ⟨later, hle, hcovers, -⟩ := h.backed hinv hunexpired
      rw [hbody]
      exact hcovers.mono hle
  | @apply req version call spec hmem hbody hversion hnew happly =>
      refine hanswer _ req _ rfl rfl rfl ?_
      rintro hunexpired rfl lease -
      rw [hbody]
      cases call with
      | vacate => trivial
      | claim write =>
          obtain ⟨hclaimant, hmicros, hduration⟩ := hinv.faithful req hmem _ hbody
          refine ⟨hclaimant, ?_⟩
          -- The write does not end the claim sooner, and is recorded as it will be cached.
          obtain ⟨later, hle, -, hendures⟩ := h.backed hinv hunexpired
          obtain ⟨-, e, hexpiry, hlater⟩ := hendures req hmem rfl _ spec hbody hversion happly
          obtain ⟨hrecorded, hfits⟩ := ClaimWrite.applyTo_expiry happly
          rw [published_eq_local hduration (hwhole req.sender) hmicros hfits] at hrecorded
          rw [hrecorded] at hexpiry
          obtain rfl := Option.some.inj hexpiry
          exact hle.trans hlater
  | @conflict req call hmem hbody hversion =>
      refine hanswer _ req _ rfl rfl rfl ?_
      rintro - - lease ⟨⟩
  | @refuse req code hmem hcode =>
      refine hanswer _ req _ rfl rfl rfl ?_
      rintro - - lease ⟨⟩
  | lose => exact ⟨h.cached, h.answers⟩

end Stands

/-! ## The election -/

namespace Election

variable [DecidableEq ι] {profile : Profile} {claimantOf : ι → String}
  {paramsOf : ι → ClaimParams} {x y : Election ι}

/-- The invariant: beliefs are backed, every task is accounted for, and what a receiver
shows of its own candidate's claims stands. -/
structure Sound (claimantOf : ι → String) (paramsOf : ι → ClaimParams) (x : Election ι) :
    Prop where
  exclusive : Exclusive claimantOf paramsOf x.sys
  accounted : ∀ i, Accounted i (claimantOf i) (paramsOf i) (x.view i)
  stands : ∀ i claim, x.closed i = false → x.shown i = some claim →
    claim.holder = claimantOf i → Stands (claimantOf i) claim.expiry.nanos x.sys i

omit [DecidableEq ι] in
theorem Sound.initial {now : DateTime} (hmicros : now.Micros) (version : String)
    (spec : Option LeaseSpec) :
    (Election.initial now version spec : Election ι).Sound claimantOf paramsOf where
  exclusive := Exclusive.initial hmicros version spec
  accounted i := Accounted.initial now version spec
  stands := by
    intro i claim _ hshown
    cases hshown

omit [DecidableEq ι] in
/-- The calls of a candidate are those of everybody else for the others. -/
theorem foreign_of_own (hdistinct : Function.Injective claimantOf) {i j : ι} (hne : i ≠ j)
    {b : Action ι} (hown : ∀ k op, b = .call k op → own (claimantOf j) (paramsOf j) op) :
    b.Obeys (Spawned.foreign (claimantOf i)) := by
  cases b with
  | call k op =>
      have hop := hown k op rfl
      have hother : claimantOf j ≠ claimantOf i := fun hsame => hne (hdistinct hsame).symm
      cases op with
      | ensureClaimed claimant params =>
          obtain ⟨rfl, -⟩ := hop
          exact hother
      | vacate claimant =>
          obtain rfl := hop
          exact hother
      | init | withDiagnostics | sync => trivial
  | _ => trivial

omit [DecidableEq ι] in
theorem servesWith_of_own {j : ι} {b : Action ι} (hactor : b.actor = some j)
    (hown : ∀ k op, b = .call k op → own (claimantOf j) (paramsOf j) op) :
    b.Obeys (servesWith claimantOf paramsOf) := by
  cases b with
  | call k op =>
      obtain rfl : k = j := Option.some.inj hactor
      have hop := hown k op rfl
      cases op with
      | ensureClaimed | vacate => exact hop
      | init | withDiagnostics | sync => trivial
  | _ => trivial

section Step

variable (hdistinct : Function.Injective claimantOf)
  (hwhole : ∀ i, (paramsOf i).leaseDuration.WholeSeconds)
  (hgrace : ∀ i, (paramsOf i).renewGracePeriod.toNanos ≤ (paramsOf i).leaseDuration.toNanos)

include hdistinct hwhole hgrace

/-- One action of the system keeps beliefs backed, the candidates that do not take it
accounted for, and what was shown standing. -/
theorem Sound.perform (h : x.Sound claimantOf paramsOf) {b : Action ι} {t : Sys ι}
    {ret : Option Return} (hperform : x.sys.perform profile b = some (t, ret))
    (hobeys : b.Obeys (servesWith claimantOf paramsOf)) (hmicros : b.InMicros)
    (hforeign : ∀ i, b.actor ≠ some i → b.Obeys (Spawned.foreign (claimantOf i))) :
    Exclusive claimantOf paramsOf t ∧
      (∀ i, b.actor ≠ some i →
        Accounted i (claimantOf i) (paramsOf i) ⟨t, x.tasks i, x.closed i⟩) ∧
      ∀ i expiry, (∀ c, b ≠ .call i (.vacate c)) →
        Stands (claimantOf i) expiry x.sys i → Stands (claimantOf i) expiry t i := by
  have hstep : Sys.Step profile x.sys b t := by
    unfold Sys.Step Sys.step?
    rw [hperform]
    rfl
  refine ⟨?_, ?_, ?_⟩
  · refine h.exclusive.step_of_clean hdistinct hwhole hgrace ?_ ⟨⟨hstep, hobeys⟩, hmicros⟩
    intro i id hawaits
    exact (h.accounted i).1.pcReady.clean_of_getting hawaits
  · intro i hactor
    have hout : (x.view i).step? profile i (claimantOf i) (paramsOf i) (.outside b) =
        some ⟨t, x.tasks i, x.closed i⟩ := by
      rw [Spawned.step?, if_neg hactor]
      change (x.sys.perform profile b).map _ = _
      rw [hperform]
      rfl
    refine (h.accounted i).step ⟨hout, ?_⟩
    rintro _ ⟨⟩
    exact hforeign i hactor
  · intro i expiry hvacate hstands
    exact hstands.step h.exclusive hwhole (Sys.perform_cases hperform) hvacate

/-- An action of the server or of the clock. -/
theorem Sound.world (h : x.Sound claimantOf paramsOf) {b : Action ι} {t : Sys ι}
    {ret : Option Return} (hactor : b.actor = none)
    (hperform : x.sys.perform profile b = some (t, ret)) (hmicros : b.InMicros) :
    ({ x with sys := t } : Election ι).Sound claimantOf paramsOf := by
  have hnocall : ∀ j op, b ≠ .call j op := by
    rintro j op rfl
    cases hactor
  have hany : ∀ allowed, b.Obeys allowed := by
    intro allowed
    cases b with
    | call j op => exact absurd rfl (hnocall j op)
    | _ => trivial
  obtain ⟨hexclusive, haccounted, hstands⟩ :=
    h.perform hdistinct hwhole hgrace hperform (hany _) hmicros fun _ _ => hany _
  refine ⟨hexclusive, fun i => haccounted i (by simp [hactor]), ?_⟩
  intro i claim hopen hshown hown
  exact hstands i _ (fun c => hnocall i _) (h.stands i claim hopen hshown hown)

/-- An action of a candidate. -/
theorem Sound.candidate (h : x.Sound claimantOf paramsOf) {j : ι} {a : SpawnAction ι}
    {z : Spawned ι} (hinside : a.isOutside = false)
    (hstep : (x.view j).step? profile j (claimantOf j) (paramsOf j) a = some z) :
    Election.Sound claimantOf paramsOf
      { sys := z.sys
        tasks := Function.update x.tasks j z.task
        closed := Function.update x.closed j z.closed
        shown := Function.update x.shown j ((Task.sends (x.tasks j) z.task).or (x.shown j)) } := by
  have hperforms := performs_of_step hinside hstep
  have hself : Accounted j (claimantOf j) (paramsOf j) z := by
    refine (h.accounted j).step ⟨hstep, ?_⟩
    rintro b rfl
    cases hinside
  -- Whatever the candidate did, it is nothing to the others, and has called `vacate` only
  -- when nobody looks at its receivers.
  obtain ⟨hexclusive, hothers, hstands, hclosed⟩ : Exclusive claimantOf paramsOf z.sys ∧
      (∀ i, i ≠ j → Accounted i (claimantOf i) (paramsOf i) ⟨z.sys, x.tasks i, x.closed i⟩) ∧
      (∀ i expiry, (i = j → x.closed j = false) → Stands (claimantOf i) expiry x.sys i →
        Stands (claimantOf i) expiry z.sys i) ∧
      (x.closed j = true → z.closed = true) := by
    cases hperforms with
    | nothing hsys hclosed =>
        rw [hsys]
        exact ⟨h.exclusive, fun i _ => h.accounted i, fun _ _ _ hsame => hsame, hclosed⟩
    | @action b ret hperform hactor hown hvacate hclosed =>
        have hmicros : b.InMicros := by
          cases b with
          | tick => cases hactor
          | _ => trivial
        have hforeign : ∀ i, b.actor ≠ some i → b.Obeys (Spawned.foreign (claimantOf i)) := by
          intro i hi
          have hne : i ≠ j := by
            rintro rfl
            exact hi hactor
          exact foreign_of_own hdistinct hne hown
        obtain ⟨hexclusive, haccounted, hstands⟩ := h.perform hdistinct hwhole hgrace hperform
          (servesWith_of_own hactor hown) hmicros hforeign
        refine ⟨hexclusive, ?_, ?_, hclosed⟩
        · intro i hne
          exact haccounted i fun hi => hne (Option.some.inj (hi.symm.trans hactor))
        · intro i expiry hopen
          refine hstands i expiry ?_
          rintro c rfl
          obtain rfl : i = j := Option.some.inj hactor
          have hclosed : x.closed i = true := hvacate i c rfl
          rw [hopen rfl] at hclosed
          cases hclosed
  refine ⟨hexclusive, ?_, ?_⟩
  · intro i
    by_cases hij : i = j
    · subst hij
      simpa [view] using hself
    · simpa [view, Function.update_of_ne hij] using hothers i hij
  · intro i claim hopen hshown hown
    by_cases hij : i = j
    · subst hij
      simp only [Function.update_self] at hopen hshown
      have hwasOpen : x.closed i = false := by
        cases hwas : x.closed i with
        | false => rfl
        | true =>
            rw [hclosed hwas] at hopen
            cases hopen
      cases hsends : Task.sends (x.tasks i) z.task with
      | some sent =>
          -- The task has just sent the claim that its manager has cached.
          rw [hsends, Option.some_or] at hshown
          obtain rfl := Option.some.inj hshown
          have htask := hself.2
          rw [Task.sends_eq_some hsends] at htask
          exact Stands.of_resting htask hown
      | none =>
          rw [hsends, Option.none_or] at hshown
          exact hstands i _ (fun _ => hwasOpen) (h.stands i claim hwasOpen hshown hown)
    · simp only [Function.update_of_ne hij] at hopen hshown
      exact hstands i _ (fun hsame => absurd hsame hij) (h.stands i claim hopen hshown hown)

theorem Sound.step (h : x.Sound claimantOf paramsOf) {a : ElectionAction ι}
    (hstep : Election.Step profile claimantOf paramsOf x a y) : y.Sound claimantOf paramsOf := by
  obtain ⟨hstep, hclock⟩ := hstep
  cases a with
  | world b =>
      obtain ⟨hactor, hrest⟩ := Option.ite_none_right_eq_some.mp hstep
      obtain ⟨⟨t, ret⟩, hperform, rfl⟩ := Option.map_eq_some_iff.mp hrest
      exact h.world hdistinct hwhole hgrace hactor hperform (hclock b rfl)
  | candidate j a =>
      obtain ⟨hinside, hrest⟩ := Option.ite_none_left_eq_some.mp hstep
      obtain ⟨z, hspawned, rfl⟩ := Option.map_eq_some_iff.mp hrest
      exact h.candidate hdistinct hwhole hgrace (Bool.not_eq_true _ ▸ hinside) hspawned

theorem sound_of_run {now : DateTime} (hmicros : now.Micros) {version : String}
    {spec : Option LeaseSpec} {actions : List (ElectionAction ι)}
    (hrun : Run (Election.Step profile claimantOf paramsOf) (Election.initial now version spec)
      actions x) : x.Sound claimantOf paramsOf :=
  hrun.invariant (Sound claimantOf paramsOf)
    (fun _ _ _ h hstep => h.step hdistinct hwhole hgrace hstep)
    (Sound.initial hmicros version spec)

end Step

/-- A receiver of the candidate shows it a claim that is current and its own. -/
def leads (claimantOf : ι → String) (x : Election ι) (i : ι) : Bool :=
  !x.closed i && (x.shown i).any (·.isCurrentFor (claimantOf i) x.sys.now)

/-- Candidates that use `spawn` with distinct claimants, each with parameters of its own
whose duration is a whole number of seconds and no shorter than the grace period: in
every state of every run, whatever requests are lost, delayed or answered too late, the
resource records the claim of whoever leads at least as long as it was shown, and no two
candidates lead. -/
theorem one_leader (profile : Profile) (claimantOf : ι → String) (paramsOf : ι → ClaimParams)
    (hdistinct : Function.Injective claimantOf)
    (hwhole : ∀ i, (paramsOf i).leaseDuration.WholeSeconds)
    (hgrace : ∀ i, (paramsOf i).renewGracePeriod.toNanos ≤ (paramsOf i).leaseDuration.toNanos)
    {now : DateTime} (hmicros : now.Micros) {version : String} {spec : Option LeaseSpec}
    {actions : List (ElectionAction ι)} {x : Election ι}
    (hrun : Run (Election.Step profile claimantOf paramsOf) (Election.initial now version spec)
      actions x) :
    (∀ i claim, x.leads claimantOf i = true → x.shown i = some claim →
      Covers (claimantOf i) claim.expiry.nanos x.sys.server.value) ∧
      ∀ i j, x.leads claimantOf i = true → x.leads claimantOf j = true → i = j := by
  have h := sound_of_run hdistinct hwhole hgrace hmicros hrun
  have hrecorded : ∀ i, x.leads claimantOf i = true → ∃ claim, x.shown i = some claim ∧
      Covers (claimantOf i) claim.expiry.nanos x.sys.server.value := by
    intro i hleads
    obtain ⟨hopen, hany⟩ := Bool.and_eq_true_iff.mp hleads
    obtain ⟨claim, hshown, hcurrent⟩ := (Option.any_eq_true _ _).mp hany
    obtain ⟨hown, hunexpired⟩ := (claim.isCurrentFor_iff _ _).mp hcurrent
    have hstands := h.stands i claim (by simpa using hopen) hshown hown
    obtain ⟨later, hle, hcovers, -⟩ := hstands.backed h.exclusive hunexpired
    exact ⟨claim, hshown, hcovers.mono hle⟩
  refine ⟨?_, ?_⟩
  · intro i claim hleads hshown
    obtain ⟨claim', hshown', hcovers⟩ := hrecorded i hleads
    rw [hshown] at hshown'
    obtain rfl := Option.some.inj hshown'
    exact hcovers
  · intro i j hi hj
    obtain ⟨_, -, hholderI, -⟩ := hrecorded i hi
    obtain ⟨_, -, hholderJ, -⟩ := hrecorded j hj
    rw [hholderI] at hholderJ
    exact hdistinct (Option.some.inj hholderJ)

/-- Alice and bob spawn their managers.  Alice acquires the lease, and bob finds her
claim. -/
def aliceElected : List (ElectionAction Bool) :=
  [.candidate false (.prepare .init), .world (.serve ⟨0, false, .get⟩),
    .candidate false (.progress (.deliver false (.ok ⟨some "1", some {}⟩))),
    .candidate false .spawn, .candidate false (.progress (.resume false)),
    .candidate false (.progress (.resume false)),
    .world (.apply ⟨4, false, .patch (.claim aliceAcquire)⟩ "2"),
    .candidate false (.progress (.deliver false (.ok ⟨some "2", some aliceLease⟩))),
    .candidate true (.prepare .init), .world (.serve ⟨6, true, .get⟩),
    .candidate true (.progress (.deliver true (.ok ⟨some "2", some aliceLease⟩))),
    .candidate true .spawn, .candidate true (.progress (.resume true))]

/-- Both receivers show a claim, and only alice leads. -/
theorem alice_leads_alone :
    ∃ x : Election Bool,
      Run (Election.Step .release exampleClaimant exampleParams)
        (Election.initial exampleNow "1" (some {})) aliceElected x ∧
      x.leads exampleClaimant false = true ∧ (x.shown true).isSome = true ∧
      Covers "alice" 1700000030000000000 x.sys.server.value ∧
      x.leads exampleClaimant true = false := by
  obtain ⟨x, hx⟩ := Option.isSome_iff_exists.mp
    (show (execAll (Election.step? .release exampleClaimant exampleParams)
      (Election.initial exampleNow "1" (some {})) aliceElected).isSome = true by
      decide +kernel)
  have hclock : ∀ a ∈ aliceElected, ∀ b, a = .world b → b.InMicros := by
    simp [aliceElected, Action.InMicros]
  have hrun : Run (Election.Step .release exampleClaimant exampleParams)
      (Election.initial exampleNow "1" (some {})) aliceElected x :=
    (run_of_execAll (fun _ _ _ h => h) hx).restrict hclock
  have hleads : x.leads exampleClaimant false = true :=
    eq_of_execAll_map (fun x => x.leads exampleClaimant false) hx (by decide +kernel)
  have hshown : (x.shown false).map (·.expiry.nanos) = some 1700000030000000000 :=
    eq_of_execAll_map (fun x => (x.shown false).map (·.expiry.nanos)) hx (by decide +kernel)
  obtain ⟨claim, hclaim, hexpiry⟩ := Option.map_eq_some_iff.mp hshown
  obtain ⟨hrecorded, hone⟩ := one_leader .release exampleClaimant exampleParams
    exampleClaimant_injective (fun _ => rfl) exampleParams_grace exampleNow_micros hrun
  refine ⟨x, hrun, hleads, ?_, hexpiry ▸ hrecorded false claim hleads hclaim, ?_⟩
  · exact eq_of_execAll_map (fun x => (x.shown true).isSome) (b := true) hx (by decide +kernel)
  · exact Bool.eq_false_iff.mpr fun hbob => Bool.false_ne_true (hone false true hleads hbob)

end Election

end Lease
end Kubert
