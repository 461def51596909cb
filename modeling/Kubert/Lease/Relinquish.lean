import Kubert.Lease.Settled

/-!
# A task that finishes has given the lease up

The task of `spawn` finishes with `Ok(())` when `vacate` has returned, and
`vacate` talks to the server in one of four cases only.  In the other three it
returns because of what is cached, while patches of failed attempts may still be
under way.

Between two calls the manager is settled at the cached version, and this is what
makes these cases safe: the claimant can be the recorded holder only at that
version, where the cached claim says that the claim is over or somebody else's.
From then on nothing can bring the claimant back, because the manager is clean
and the others write for other claimants.
-/

namespace Kubert
namespace Lease

open Foundation

variable {ι : Type}

/-! ## Methods and the task that runs them -/

/-- The methods of a manager, as far as the task tells them apart. -/
inductive Method
  | read
  | ensureClaimed
  | vacate
deriving DecidableEq

/-- The method that is running. -/
def Pc.method : Pc → Option Method
  | .idle => none
  | .getting _ (.resync _ _) => some .ensureClaimed
  | .getting _ _ => some .read
  | .ensuring _ _ => some .ensureClaimed
  | .renewing _ _ => some .ensureClaimed
  | .acquiring _ _ => some .ensureClaimed
  | .claiming _ _ _ => some .ensureClaimed
  | .vacating _ _ _ => some .vacate

/-- The method that has returned. -/
def Return.method : Return → Method
  | .ensureClaimed _ => .ensureClaimed
  | .vacate _ => .vacate
  | _ => .read

/-- Going on with a method stays in the loop of `ensure_claimed` or returns. -/
theorem Node.method_of_moves {profile : Profile} {now : DateTime} {id : Nat}
    {node : Node} {input : Input} {effect : Effect}
    (hcall : ∀ op, input ≠ .call op) (hcancel : input ≠ .cancel)
    (hmoves : Node.Moves profile now id node input effect) :
    (effect.ret = none ∧ node.pc.method = some .ensureClaimed ∧
        effect.node.pc.method = some .ensureClaimed) ∨
      ∃ ret, effect.ret = some ret ∧ effect.node.pc = .idle ∧
        node.pc.method = some ret.method := by
  cases hmoves with
  | init | withDiagnostics | sync | ensureClaimed | vacateSkipped | vacateSent =>
      exact absurd rfl (hcall _)
  | cancelled => exact absurd rfl hcancel
  | @due _ _ _ kind hpc =>
      rw [hpc]
      cases kind with
      | acquire => exact Or.inl ⟨rfl, rfl, rfl⟩
      | renew => exact Or.inl ⟨rfl, rfl, rfl⟩
  | renewSent hpc | acquireSent hpc | gotResync hpc | conflicted hpc =>
      rw [hpc]
      exact Or.inl ⟨rfl, rfl, rfl⟩
  | @getFailed _ caller _ _ hpc =>
      rw [hpc]
      refine Or.inr ⟨_, rfl, rfl, ?_⟩
      cases caller <;> rfl
  | returned hpc | headPanicked hpc | acquirePanicked hpc | gotInit hpc
  | gotSync hpc | claimFailed hpc | finishFailed hpc | claimed hpc
  | vacateFailed hpc | vacated hpc =>
      rw [hpc]
      exact Or.inr ⟨_, rfl, rfl, rfl⟩

section TaskSteps

variable {i : ι} {claimant : String} {params : ClaimParams}

/-- Between two calls: the task's claim is the cached one, and the manager is
settled at the cached version. -/
def Resting (s : Sys ι) (i : ι) (claimant : String) (claim : Claim) : Prop :=
  (s.nodes i).pc = .idle ∧ ∃ m, (s.nodes i).manager = some m ∧
    m.state.claim = some claim ∧ Settled s i claimant m.state.meta.version

/-- What holds where the task stands. -/
def TaskOk (i : ι) (claimant : String) (params : ClaimParams) (s : Sys ι) :
    Task → Prop
  | .unspawned => ((s.nodes i).pc.method = none ∨
      (s.nodes i).pc.method = some .read) ∧ Clean s i ∧
        ∀ m, (s.nodes i).manager = some m →
          Settled s i claimant m.state.meta.version
  | .starting => (s.nodes i).pc.method = some .ensureClaimed
  | .claiming => (s.nodes i).pc.method = some .ensureClaimed
  | .backingOff _ => (s.nodes i).pc = .idle ∧ ∀ m, (s.nodes i).manager = some m →
      Due s.now m.state claimant params ∧ Behind s i m.state.meta.version
  | .selecting claim => Resting s i claimant claim
  | .sleeping claim _ => Resting s i claimant claim
  | .publishing claim => Resting s i claimant claim
  | .vacating => (s.nodes i).pc.method = some .vacate
  | .finished => (s.nodes i).pc = .idle ∧ GivenUp s i claimant
  | .failed _ => (s.nodes i).pc = .idle

theorem Resting.outside {s t : Sys ι} {claim : Claim}
    (hout : Outside i claimant s t) (hissued : OwnIssued s i)
    (hrest : Resting s i claimant claim) : Resting t i claimant claim := by
  obtain ⟨hidle, m, hm, hclaim, hsettled⟩ := hrest
  unfold Resting
  rw [hout.node]
  exact ⟨hidle, m, hm, hclaim, hout.settled hissued hsettled⟩

theorem TaskOk.outside {s t : Sys ι} {task : Task} (hout : Outside i claimant s t)
    (hissued : OwnIssued s i) (htask : TaskOk i claimant params s task) :
    TaskOk i claimant params t task := by
  cases task with
  | unspawned =>
      obtain ⟨hmethod, hclean, hset⟩ := htask
      unfold TaskOk
      rw [hout.node]
      exact ⟨hmethod, hout.clean hissued hclean,
        fun m hm => hout.settled hissued (hset m hm)⟩
  | starting | claiming | vacating | failed =>
      unfold TaskOk
      rw [hout.node]
      exact htask
  | backingOff e =>
      obtain ⟨hidle, hdue⟩ := htask
      unfold TaskOk
      rw [hout.node]
      exact ⟨hidle, fun m hm => ⟨(hdue m hm).1.mono hout.now,
        hout.behind hissued (hdue m hm).2⟩⟩
  | selecting claim => exact Resting.outside hout hissued htask
  | sleeping claim wakeAt => exact Resting.outside hout hissued htask
  | publishing claim => exact Resting.outside hout hissued htask
  | finished =>
      obtain ⟨hidle, hgiven⟩ := htask
      unfold TaskOk
      rw [hout.node]
      exact ⟨hidle, hout.givenUp hissued hgiven⟩

/-- Where a method is running, the task is one that runs it. -/
theorem TaskOk.running {s : Sys ι} {task : Task} {method : Method}
    (htask : TaskOk i claimant params s task)
    (hmethod : (s.nodes i).pc.method = some method) :
    (task = .unspawned ∧ method = .read) ∨
      ((task = .starting ∨ task = .claiming) ∧ method = .ensureClaimed) ∨
      (task = .vacating ∧ method = .vacate) := by
  have hbusy : (s.nodes i).pc ≠ .idle := by
    intro hidle
    rw [hidle] at hmethod
    cases hmethod
  cases task with
  | unspawned =>
      rcases htask.1 with hnone | hread
      · rw [hnone] at hmethod
        cases hmethod
      · rw [hread] at hmethod
        exact Or.inl ⟨rfl, (Option.some.inj hmethod).symm⟩
  | starting =>
      rw [show (s.nodes i).pc.method = some .ensureClaimed from htask] at hmethod
      exact Or.inr (Or.inl ⟨Or.inl rfl, (Option.some.inj hmethod).symm⟩)
  | claiming =>
      rw [show (s.nodes i).pc.method = some .ensureClaimed from htask] at hmethod
      exact Or.inr (Or.inl ⟨Or.inr rfl, (Option.some.inj hmethod).symm⟩)
  | vacating =>
      rw [show (s.nodes i).pc.method = some .vacate from htask] at hmethod
      exact Or.inr (Or.inr ⟨rfl, (Option.some.inj hmethod).symm⟩)
  | failed f => exact absurd htask hbusy
  | backingOff | selecting | sleeping | publishing | finished =>
      exact absurd htask.1 hbusy

/-- A result of `ensure_claimed` is dealt with. -/
theorem taskOk_receive_ensureClaimed {profile : Profile} {t : Sys ι} {task : Task}
    {result : Except Fault Claim} (htask : task = .starting ∨ task = .claiming)
    (hidle : (t.nodes i).pc = .idle)
    (hret : ReturnOk t i claimant params (.ensureClaimed result)) :
    TaskOk i claimant params t (task.receive profile (.ensureClaimed result)) := by
  rcases htask with rfl | rfl
  · cases result with
    | ok claim => exact ⟨hidle, hret⟩
    | error f => exact hidle
  · cases result with
    | ok claim => exact ⟨hidle, hret⟩
    | error f =>
        cases f with
        | panic => exact hidle
        | error e =>
            change TaskOk i claimant params t (Task.afterError profile e)
            unfold Task.afterError
            split
            · exact hidle
            · exact hidle
            · exact hidle
            -- Errors that end the task leave nothing to show; the others are retried.
            · split <;> exact hidle
            · exact ⟨hidle, hret⟩

/-- Whatever the manager returns, the task deals with it. -/
theorem TaskOk.receive {profile : Profile} {s t : Sys ι} {task : Task}
    {ret : Return} (htask : TaskOk i claimant params s task)
    (hmethod : (s.nodes i).pc.method = some ret.method)
    (hidle : (t.nodes i).pc = .idle) (hret : ReturnOk t i claimant params ret) :
    TaskOk i claimant params t (task.receive profile ret) := by
  rcases htask.running hmethod with ⟨rfl, hread⟩ | ⟨hwhich, hensure⟩ | ⟨rfl, hvacate⟩
  · have hnone : (t.nodes i).pc.method = none := by
      rw [hidle]
      rfl
    cases ret with
    | init result => exact ⟨Or.inl hnone, hret⟩
    | unit => exact ⟨Or.inl hnone, hret⟩
    | sync result => exact ⟨Or.inl hnone, hret⟩
    | ensureClaimed result => cases hread
    | vacate result => cases hread
  · cases ret with
    | ensureClaimed result =>
        exact taskOk_receive_ensureClaimed hwhich hidle hret
    | _ => cases hensure
  · cases ret with
    | vacate result =>
        cases result with
        | ok vacated => exact ⟨hidle, hret⟩
        | error f => exact hidle
    | _ => cases hvacate

variable [DecidableEq ι]

/-- The invariant of the system with the task. -/
def Accounted (i : ι) (claimant : String) (params : ClaimParams)
    (x : Spawned ι) : Prop :=
  Intact i claimant params x.sys ∧ TaskOk i claimant params x.sys x.task

variable {profile : Profile} {x y : Spawned ι}

/-- A call on the manager, taken apart. -/
theorem invoke_eq_some {op : Op} {task : Task}
    (h : x.invoke profile i op task = some y) :
    ∃ effect, Node.step profile x.sys.now x.sys.nextId (x.sys.nodes i) (.call op) =
        some effect ∧
      y = ⟨x.sys.advance i effect, task.receive? profile effect.ret, x.closed⟩ := by
  obtain ⟨⟨t, ret⟩, hperform, rfl⟩ := Option.map_eq_some_iff.mp h
  obtain ⟨effect, hstep, rfl, rfl⟩ := Sys.nodeStep_eq_some hperform
  exact ⟨effect, hstep, rfl⟩

/-- A call of `ensure_claimed` starts in order if the manager is settled, or if a
write is due and no other version is at stake. -/
theorem accounted_of_ensureClaimed {task : Task}
    (hintact : Intact i claimant params x.sys)
    (htask : task = .starting ∨ task = .claiming)
    (hready : ∀ m, (x.sys.nodes i).manager = some m →
      Settled x.sys i claimant m.state.meta.version ∨
        (Due x.sys.now m.state claimant params ∧
          Behind x.sys i m.state.meta.version))
    (hinvoke : x.invoke profile i (.ensureClaimed claimant params) task = some y) :
    Accounted i claimant params y := by
  obtain ⟨effect, hstep, rfl⟩ := invoke_eq_some hinvoke
  have hobeys : Action.Obeys (among i claimant params)
      (.call i (.ensureClaimed claimant params)) :=
    ⟨fun _ => ⟨rfl, rfl⟩, fun h => absurd rfl h⟩
  have hfeeds := Sys.Feeds.call (s := x.sys) i (.ensureClaimed claimant params)
  cases Node.step_moves hstep with
  | @ensureClaimed m _ _ hpc hm =>
      have hpcReady : PcReady (x.sys.advance i
          ⟨⟨some m, .ensuring claimant params⟩, none, none⟩) i claimant params := by
        unfold PcReady
        rw [Sys.advance_nodes_self]
        rintro m' ⟨⟩
        rcases hready m hm with hsettled | ⟨hdue, hbehind⟩
        · exact Or.inl (hsettled.advance (by simp))
        · exact Or.inr ⟨hdue, hbehind.advance (by simp)⟩
      refine ⟨hintact.advance_self hfeeds hobeys hstep hpcReady, ?_⟩
      have hmethod : ((x.sys.advance i
          ⟨⟨some m, .ensuring claimant params⟩, none, none⟩).nodes i).pc.method =
            some .ensureClaimed := by
        rw [Sys.advance_nodes_self]
        rfl
      rcases htask with rfl | rfl
      · exact hmethod
      · exact hmethod

omit [DecidableEq ι] in
/-- A vacate that returns without a patch leaves nothing behind: the manager is
settled, so the claimant can be recorded at the cached version only, and there
the cached claim says that it is over or somebody else's. -/
theorem givenUp_of_vacateSkipped {m : LeaseManager} {claim : Claim} {state : State}
    {s : Sys ι} (hknows : Knowledge (holding ι) (among i claimant params) s)
    (hm : (s.nodes i).manager = some m) (hclaim : m.state.claim = some claim)
    (hsettled : Settled s i claimant m.state.meta.version)
    (hvacate : Lease.vacate s.now m.state claimant = (state, none)) :
    GivenUp s i claimant := by
  refine ⟨hsettled.1, ?_⟩
  intro hholder expiry hexpiry
  -- If the claimant is recorded at all, the cached version is current.
  have hcurrent := hsettled.2 hholder
  obtain ⟨hrecorded, hle⟩ := (hknows.cached i m hm).elim hcurrent.symm claim hclaim
  have hreached := hle expiry hexpiry
  rcases Node.vacate_eq_none hvacate with ⟨hnone, -⟩ | ⟨c, hc, hwhy⟩
  · rw [hclaim] at hnone
    cases hnone
  · rw [hclaim] at hc
    obtain rfl := Option.some.inj hc
    rcases hwhy with ⟨hexpired, -⟩ | ⟨hother, -⟩
    · have hover := (claim.isCurrent_eq_false_iff s.now).mp hexpired
      omega
    · rw [hholder] at hrecorded
      exact absurd (Option.some.inj hrecorded).symm hother

/-- A call of `vacate` at rest either gives the lease up at once or awaits its
patch. -/
theorem accounted_of_vacate {claim : Claim}
    (hintact : Intact i claimant params x.sys)
    (hrest : Resting x.sys i claimant claim)
    (hvacate : x.vacate profile i claimant = some y) :
    Accounted i claimant params y := by
  obtain ⟨effect, hstep, rfl⟩ := invoke_eq_some hvacate
  obtain ⟨-, m, hm, hclaim, hsettled⟩ := hrest
  have hobeys : Action.Obeys (among i claimant params) (.call i (.vacate claimant)) :=
    ⟨fun _ => rfl, fun h => absurd rfl h⟩
  have hfeeds := Sys.Feeds.call (s := x.sys) i (.vacate claimant)
  cases Node.step_moves hstep with
  | @vacateSkipped m' _ state hpc hm' hskip =>
      rw [hm] at hm'
      obtain rfl := Option.some.inj hm'
      have hgiven := givenUp_of_vacateSkipped hintact.knows hm hclaim hsettled hskip
      refine ⟨hintact.advance_self hfeeds hobeys hstep ?_, ?_, ?_⟩
      · unfold PcReady
        rw [Sys.advance_nodes_self]
        trivial
      · rw [Sys.advance_nodes_self]
      · exact hgiven.advance (by simp)
  | @vacateSent m' _ claim' hpc hm' hclaim' hcurrent hholder =>
      refine ⟨hintact.advance_self hfeeds hobeys hstep ?_, ?_⟩
      · unfold PcReady
        rw [Sys.advance_nodes_self]
        trivial
      · change (((x.sys.advance i _).nodes i).pc).method = some .vacate
        rw [Sys.advance_nodes_self]
        rfl

/-- The calls before `spawn` read the resource at most. -/
theorem accounted_of_prepare {op : Op} (hintact : Intact i claimant params x.sys)
    (htask : TaskOk i claimant params x.sys .unspawned) (hop : op.prepares = true)
    (hinvoke : x.invoke profile i op .unspawned = some y) :
    Accounted i claimant params y := by
  obtain ⟨effect, hstep, rfl⟩ := invoke_eq_some hinvoke
  obtain ⟨-, hclean, hsettled⟩ := htask
  have hfeeds := Sys.Feeds.call (s := x.sys) i op
  cases Node.step_moves hstep with
  | ensureClaimed | vacateSkipped | vacateSent => cases hop
  | init hpc hm =>
      have hobeys : Action.Obeys (among i claimant params) (.call i .init) :=
        ⟨fun _ => trivial, fun h => absurd rfl h⟩
      refine ⟨hintact.advance_self hfeeds hobeys hstep ?_, ?_, ?_, ?_⟩
      · unfold PcReady
        rw [Sys.advance_nodes_self]
        exact ⟨hclean.advance (by simp), fun m hm => by cases hm⟩
      · rw [Sys.advance_nodes_self]
        exact Or.inr rfl
      · exact hclean.advance (by simp)
      · rw [Sys.advance_nodes_self]
        intro m hm
        cases hm
  | @withDiagnostics m d hpc hm =>
      have hobeys : Action.Obeys (among i claimant params)
          (.call i (.withDiagnostics d)) :=
        ⟨fun _ => trivial, fun h => absurd rfl h⟩
      refine ⟨hintact.advance_self hfeeds hobeys hstep ?_, ?_, ?_, ?_⟩
      · unfold PcReady
        rw [Sys.advance_nodes_self]
        trivial
      · rw [Sys.advance_nodes_self]
        exact Or.inl rfl
      · exact hclean.advance (by simp)
      · rw [Sys.advance_nodes_self]
        rintro m' ⟨⟩
        exact (hsettled m hm).advance (by simp)
  | @sync m hpc hm =>
      have hobeys : Action.Obeys (among i claimant params) (.call i .sync) :=
        ⟨fun _ => trivial, fun h => absurd rfl h⟩
      have hafter : ∀ m', some m = some m' →
          Settled (x.sys.advance i ⟨⟨some m, .getting x.sys.nextId .sync⟩,
            some .get, none⟩) i claimant m'.state.meta.version := by
        rintro m' ⟨⟩
        exact (hsettled m hm).advance (by simp)
      refine ⟨hintact.advance_self hfeeds hobeys hstep ?_, ?_, ?_, ?_⟩
      · unfold PcReady
        rw [Sys.advance_nodes_self]
        exact ⟨hclean.advance (by simp), hafter⟩
      · rw [Sys.advance_nodes_self]
        exact Or.inr rfl
      · exact hclean.advance (by simp)
      · rw [Sys.advance_nodes_self]
        exact hafter

/-- Going on with a call of the manager keeps the invariant. -/
theorem accounted_of_progress {a : Action ι} {t : Sys ι} {ret : Option Return}
    (hinv : Accounted i claimant params x) (hactor : a.actor = some i)
    (hcontinues : a.continues = true)
    (hperform : x.sys.perform profile a = some (t, ret)) :
    Accounted i claimant params ⟨t, x.task.receive? profile ret, x.closed⟩ := by
  obtain ⟨hintact, htask⟩ := hinv
  cases Sys.perform_cases hperform with
  | @node _ j input effect hfeeds hstep =>
      obtain rfl : j = i := Option.some.inj (hfeeds.actor.symm.trans hactor)
      have hobeys : a.Obeys (among j claimant params) := by
        cases hfeeds with
        | call => cases hcontinues
        | _ => trivial
      obtain ⟨hready, hreturn⟩ := hintact.progress hfeeds hcontinues hstep
      refine ⟨hintact.advance_self hfeeds hobeys hstep hready, ?_⟩
      have hcall : ∀ op, input ≠ .call op := by
        rintro op rfl
        cases hfeeds
        cases hcontinues
      have hcancel : input ≠ .cancel := by
        rintro rfl
        cases hfeeds
        cases hcontinues
      rcases Node.method_of_moves hcall hcancel (Node.step_moves hstep) with
        ⟨hnone, hbefore, hafter⟩ | ⟨ret, hret, hidle, hbefore⟩
      · rw [hnone]
        have hmethod : ((x.sys.advance j effect).nodes j).pc.method =
            some .ensureClaimed := by
          rw [Sys.advance_nodes_self]
          exact hafter
        rcases htask.running hbefore with ⟨-, h⟩ | ⟨hwhich, -⟩ | ⟨-, h⟩
        · cases h
        · change TaskOk j claimant params _ x.task
          rcases hwhich with hwhich | hwhich
          · rw [hwhich]
            exact hmethod
          · rw [hwhich]
            exact hmethod
        · cases h
      · rw [hret]
        refine TaskOk.receive htask hbefore ?_ (hreturn ret hret)
        rw [Sys.advance_nodes_self]
        exact hidle
  | tick | serve | apply | conflict | refuse | lose => cases hactor

/-- The task calls `ensure_claimed` again, from rest. -/
theorem accounted_of_resting {claim : Claim} (hintact : Intact i claimant params x.sys)
    (hresting : Resting x.sys i claimant claim)
    (hcall : x.ensureClaimed profile i claimant params = some y) :
    Accounted i claimant params y := by
  obtain ⟨-, m, hm, -, hsettled⟩ := hresting
  refine accounted_of_ensureClaimed hintact (Or.inr rfl) ?_ hcall
  intro m' hm'
  rw [hm] at hm'
  obtain rfl := Option.some.inj hm'
  exact Or.inl hsettled

/-- Before the task is spawned, a call that is dropped leaves the manager as it was. -/
theorem accounted_of_abandon {t : Sys ι} {ret : Option Return}
    (hinv : Accounted i claimant params x) (hunspawned : x.task = .unspawned)
    (hperform : x.sys.perform profile (.cancel i) = some (t, ret)) :
    Accounted i claimant params { x with sys := t } := by
  obtain ⟨hintact, htask⟩ := hinv
  obtain ⟨effect, hnode, rfl, rfl⟩ := Sys.nodeStep_eq_some hperform
  rw [hunspawned] at htask
  obtain ⟨-, hclean, hsettled⟩ := htask
  cases Node.step_moves hnode with
  | cancelled hawaits =>
      refine ⟨hintact.advance_self (Sys.Feeds.cancel i) trivial hnode ?_, ?_⟩
      · unfold PcReady
        rw [Sys.advance_nodes_self]
        trivial
      · change TaskOk i claimant params _ x.task
        rw [hunspawned]
        unfold TaskOk
        rw [Sys.advance_nodes_self]
        exact ⟨Or.inl rfl, hclean.advance (by simp),
          fun m hm => (hsettled m hm).advance (by simp)⟩

/-- The task selects between the end of the claim and its receivers. -/
theorem accounted_of_poll (hinv : Accounted i claimant params x)
    (hpoll : x.poll profile i claimant params = some y) :
    Accounted i claimant params y := by
  obtain ⟨hintact, htask⟩ := hinv
  simp only [Spawned.poll] at hpoll
  split at hpoll
  · rename_i claim hselecting
    rw [hselecting] at htask
    split at hpoll
    · exact accounted_of_vacate hintact htask hpoll
    · split at hpoll
      · exact accounted_of_resting hintact htask hpoll
      · obtain rfl := Option.some.inj hpoll
        exact ⟨hintact, htask⟩
  · rename_i claim wakeAt hsleeping
    split at hpoll
    · rw [hsleeping] at htask
      exact accounted_of_vacate hintact htask hpoll
    · split at hpoll
      · rw [hsleeping] at htask
        exact accounted_of_resting hintact htask hpoll
      · obtain rfl := Option.some.inj hpoll
        exact ⟨hintact, htask⟩
  · cases hpoll

/-- Every step keeps the invariant. -/
theorem Accounted.step {a : SpawnAction ι} (hinv : Accounted i claimant params x)
    (hstep : Spawned.Step profile i claimant params x a y) :
    Accounted i claimant params y := by
  obtain ⟨hstep, hforeign⟩ := hstep
  obtain ⟨hintact, htask⟩ := hinv
  cases a with
  | outside b =>
      obtain ⟨hactor, hrest⟩ := Option.ite_none_left_eq_some.mp hstep
      obtain ⟨⟨t, ret⟩, hperform, rfl⟩ := Option.map_eq_some_iff.mp hrest
      have hout := hintact.outside hactor (Sys.perform_cases hperform)
      exact ⟨hintact.step_outside hactor (hforeign b rfl) hperform,
        htask.outside hout hintact.ownIssued⟩
  | progress b =>
      obtain ⟨hcond, hrest⟩ := Option.ite_none_right_eq_some.mp hstep
      obtain ⟨⟨t, ret⟩, hperform, rfl⟩ := Option.map_eq_some_iff.mp hrest
      exact accounted_of_progress ⟨hintact, htask⟩ hcond.1 hcond.2 hperform
  | prepare op =>
      obtain ⟨hcond, hrest⟩ := Option.ite_none_right_eq_some.mp hstep
      rw [hcond.1] at htask
      exact accounted_of_prepare hintact htask hcond.2 hrest
  | abandon =>
      obtain ⟨hunspawned, hrest⟩ := Option.ite_none_right_eq_some.mp hstep
      obtain ⟨⟨t, ret⟩, hperform, rfl⟩ := Option.map_eq_some_iff.mp hrest
      exact accounted_of_abandon ⟨hintact, htask⟩ hunspawned hperform
  | spawn =>
      obtain ⟨hunspawned, hrest⟩ := Option.ite_none_right_eq_some.mp hstep
      rw [hunspawned] at htask
      exact accounted_of_ensureClaimed hintact (Or.inl rfl)
        (fun m hm => Or.inl (htask.2.2 m hm)) hrest
  | poll => exact accounted_of_poll ⟨hintact, htask⟩ hstep
  | retry =>
      simp only [Spawned.step?] at hstep
      split at hstep
      · rename_i e hbackingOff
        rw [hbackingOff] at htask
        exact accounted_of_ensureClaimed hintact (Or.inr rfl)
          (fun m hm => Or.inr (htask.2 m hm)) hstep
      · cases hstep
  | giveUp =>
      simp only [Spawned.step?] at hstep
      split at hstep
      · rename_i e hbackingOff
        rw [hbackingOff] at htask
        obtain rfl := Option.some.inj hstep
        exact ⟨hintact, htask.1⟩
      · cases hstep
  | publish =>
      simp only [Spawned.step?] at hstep
      split at hstep
      · rename_i claim hpublishing
        rw [hpublishing] at htask
        split at hstep
        · exact accounted_of_vacate hintact htask hstep
        · obtain rfl := Option.some.inj hstep
          exact ⟨hintact, htask⟩
      · cases hstep
  | dropReceivers =>
      obtain ⟨-, hrest⟩ := Option.ite_none_right_eq_some.mp hstep
      obtain rfl := Option.some.inj hrest
      exact ⟨hintact, htask⟩

omit [DecidableEq ι] in
/-- At the start nothing has been sent and nothing is cached. -/
theorem Accounted.initial (now : DateTime) (version : String)
    (spec : Option LeaseSpec) :
    Accounted i claimant params (Spawned.initial now version spec) := by
  refine ⟨⟨Knowledge.initial now version spec, ?_,
    Sys.Numbered.initial now version spec, ?_, trivial⟩, Or.inl rfl, ?_, ?_⟩
  · intro req hreq
    cases hreq
  · intro id body result hawaits
    cases hawaits
  · intro req hreq
    cases hreq
  · intro m hm
    cases hm

/-- A finished task takes no further step. -/
theorem finished_step {a : SpawnAction ι} (hfinished : x.task = .finished)
    (hstep : Spawned.Step profile i claimant params x a y) :
    y.task = .finished := by
  obtain ⟨hstep, -⟩ := hstep
  cases a with
  | outside b =>
      simp only [Spawned.step?] at hstep
      split at hstep
      · cases hstep
      · obtain ⟨result, -, rfl⟩ := Option.map_eq_some_iff.mp hstep
        exact hfinished
  | progress b =>
      simp only [Spawned.step?] at hstep
      split at hstep
      · obtain ⟨⟨t, ret⟩, -, rfl⟩ := Option.map_eq_some_iff.mp hstep
        rw [hfinished]
        cases ret with
        | none => rfl
        | some ret => cases ret <;> rfl
      · cases hstep
  | dropReceivers =>
      simp only [Spawned.step?] at hstep
      split at hstep
      · obtain rfl := Option.some.inj hstep
        exact hfinished
      · cases hstep
  | _ => simp [Spawned.step?, Spawned.poll, hfinished] at hstep

end TaskSteps

variable [DecidableEq ι]

/-- Once the task of a manager that was handed to `spawn` has finished with `Ok(())`, in
that state and in every later one, the resource does not record an unexpired claim of the
claimant, and no patch of the manager that is still under way could be applied. -/
theorem finished_task_gave_up (profile : Profile) (i : ι) (claimant : String)
    (params : ClaimParams) {now : DateTime} {version : String}
    {spec : Option LeaseSpec} {actions later : List (SpawnAction ι)}
    {x y : Spawned ι}
    (hrun : Run (Spawned.Step profile i claimant params)
      (Spawned.initial now version spec) actions x)
    (hfinished : x.task = .finished)
    (hlater : Run (Spawned.Step profile i claimant params) x later y) :
    ¬ (holderOf y.sys.server.value = some claimant ∧
        ∃ expiry, expiryOf y.sys.server.value = some expiry ∧
          y.sys.now.nanos < expiry) ∧
      ∀ req ∈ y.sys.requests, req.sender = i → ∀ call, req.body = .patch call →
        call.version ≠ y.sys.server.version := by
  have hinv : Accounted i claimant params y := by
    refine (hrun.append hlater).invariant (Accounted i claimant params) ?_
      (Accounted.initial now version spec)
    exact fun _ _ _ hinv hstep => hinv.step hstep
  have hdone : y.task = .finished :=
    hlater.invariant (fun x => x.task = .finished)
      (fun _ _ _ hdone hstep => finished_step hdone hstep) hfinished
  have htask := hinv.2
  rw [hdone] at htask
  obtain ⟨-, hclean, hover⟩ := htask
  refine ⟨?_, hclean⟩
  rintro ⟨hholder, expiry, hexpiry, hunexpired⟩
  have hreached := hover hholder expiry hexpiry
  omega

/-- Alice's manager is spawned, claims the lease, and vacates it when its receivers
are dropped. -/
def aliceSpawned : List (SpawnAction Bool) :=
  [.prepare .init, .outside (.serve ⟨0, false, .get⟩),
    .progress (.deliver false (.ok ⟨some "1", some {}⟩)),
    .spawn, .progress (.resume false), .progress (.resume false),
    .outside (.apply ⟨4, false, .patch (.claim aliceAcquire)⟩ "2"),
    .progress (.deliver false (.ok ⟨some "2", some aliceLease⟩)),
    .poll, .dropReceivers, .poll,
    .outside (.apply ⟨6, false, .patch (.vacate "2" "alice")⟩ "3"),
    .progress (.deliver false
      (.ok ⟨some "3", some ⟨none, none, none, none, some 1⟩⟩))]

/-- Alice's task finishes and leaves her no claim. -/
theorem alice_task_gave_up :
    ∃ x : Spawned Bool,
      Run (Spawned.Step .release false "alice" default)
        (Spawned.initial exampleNow "1" (some {})) aliceSpawned x ∧
      x.task = .finished ∧
      ¬ (holderOf x.sys.server.value = some "alice" ∧
        ∃ expiry, expiryOf x.sys.server.value = some expiry ∧
          x.sys.now.nanos < expiry) := by
  obtain ⟨x, hx⟩ := Option.isSome_iff_exists.mp
    (show (execAll (Spawned.step? .release false "alice" default)
      (Spawned.initial exampleNow "1" (some {})) aliceSpawned).isSome = true by
      decide +kernel)
  have hforeign : ∀ a ∈ aliceSpawned, ∀ b, a = .outside b →
      b.Obeys (Spawned.foreign "alice") := by
    simp [aliceSpawned, Action.Obeys]
  have hrun : Run (Spawned.Step .release false "alice" default)
      (Spawned.initial exampleNow "1" (some {})) aliceSpawned x :=
    (run_of_execAll (fun _ _ _ h => h) hx).restrict hforeign
  have hfinished : x.task = .finished :=
    eq_of_execAll_map (fun x => x.task) hx (by decide +kernel)
  exact ⟨x, hrun, hfinished,
    (finished_task_gave_up .release false "alice" default hrun hfinished
      (Run.nil x)).1⟩

end Lease
end Kubert
