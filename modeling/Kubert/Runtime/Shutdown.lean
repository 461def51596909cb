import Kubert.Foundation.LabelledRun
import Mathlib.Data.List.Rotate

/-!
# `Shutdown::signaled`

`Shutdown` listens for `SIGINT` and `SIGTERM` and owns the sending side of the `drain`
channel.  `signaled` selects twice: first between the two signals and the end of all
`Watch`es, then, with the shutdown begun, between the drain and a second signal.

A `select!` polls its branches in a circle, from a branch that is drawn at random.  One
action polls one branch, so that signals arrive and `Watch`es are dropped between any two
of them.  What a branch asks the channel for is how many `Watch`es, and latches that
`Watch`es have become, are alive; this number is given to the action.

A `tokio` listener remembers that its signal has arrived since it was last received, not
how often.
-/

namespace Kubert
namespace Runtime

open Foundation

/-! ## The machine -/

/-- The signals that are listened for. -/
inductive SignalKind
  | interrupt
  | terminate
deriving DecidableEq, Repr

/-- What `signaled` returns: `Ok(())`, or `Err(Aborted(()))`. -/
inductive ShutdownResult
  | ok
  | aborted
deriving DecidableEq, Repr

/-- A branch of the first `select!`. -/
inductive ListenBranch
  | recv (kind : SignalKind)
  | closed
deriving DecidableEq, Repr

/-- A branch of the second `select!`. -/
inductive DrainBranch
  | drain
  | recv (kind : SignalKind)
deriving DecidableEq, Repr

/-- Where `signaled` stands: in one of its `select!`s, with the branches that are left
of the current poll, or at its end. -/
inductive SignaledStage
  | created
  | listening (todo : List ListenBranch)
  | draining (todo : List DrainBranch)
  | returned (result : ShutdownResult)
deriving DecidableEq, Repr

/-- `Shutdown`: whether its signals have arrived and were not received yet, whether the
channel was told to drain, and how far `signaled` is. -/
structure Shutdown where
  interrupt : Bool
  terminate : Bool
  sent : Bool
  stage : SignaledStage
deriving DecidableEq, Repr

namespace Shutdown

/-- `sigint_or_sigterm`. -/
def sigintOrSigterm : Shutdown where
  interrupt := false
  terminate := false
  sent := false
  stage := .created

/-- A signal is there to be received. -/
def pending (x : Shutdown) : SignalKind → Bool
  | .interrupt => x.interrupt
  | .terminate => x.terminate

/-- A signal arrives. -/
def deliver (x : Shutdown) : SignalKind → Shutdown
  | .interrupt => { x with interrupt := true }
  | .terminate => { x with terminate := true }

/-- `recv` takes the signal, and `signaled` goes on. -/
def receive (x : Shutdown) (stage : SignaledStage) : SignalKind → Shutdown
  | .interrupt => { x with interrupt := false, stage := stage }
  | .terminate => { x with terminate := false, stage := stage }

/-- The branches of the first `select!`, in the order of the source. -/
def listenBranches : List ListenBranch := [.recv .interrupt, .recv .terminate, .closed]

/-- The branches of the second `select!`, in the order of the source. -/
def drainBranches : List DrainBranch := [.drain, .recv .interrupt, .recv .terminate]

/-- `signaled` is called. -/
def start (x : Shutdown) : Option Shutdown :=
  if x.stage = .created then some { x with stage := .listening [] } else none

/-- The current `select!` is polled, from the given branch on. -/
def select (x : Shutdown) (from_ : Fin 3) : Option Shutdown :=
  match x.stage with
  | .listening [] => some { x with stage := .listening (listenBranches.rotate from_) }
  | .draining [] => some { x with stage := .draining (drainBranches.rotate from_) }
  | _ => none

/-- The next branch is polled, while this number of `Watch`es and latches is alive. -/
def pollBranch (x : Shutdown) (watches : Nat) : Option Shutdown :=
  match x.stage with
  | .listening (.recv kind :: todo) =>
      some <| if x.pending kind then x.receive (.draining []) kind
        else { x with stage := .listening todo }
  | .listening (.closed :: todo) =>
      -- Nothing has been sent yet, so that there are no latches.
      some { x with stage := if watches = 0 then .returned .ok else .listening todo }
  | .draining (.drain :: todo) =>
      -- The first poll of `drain()` sends.
      some { x with
        sent := true
        stage := if watches = 0 then .returned .ok else .draining todo }
  | .draining (.recv kind :: todo) =>
      some <| if x.pending kind then x.receive (.returned .aborted) kind
        else { x with stage := .draining todo }
  | _ => none

/-- `Watch::signaled` is ready: the channel was told to drain, or its sender is gone. -/
def notified (x : Shutdown) : Bool :=
  x.sent || match x.stage with
    | .returned _ => true
    | _ => false

@[simp] theorem deliver_sent (x : Shutdown) (kind : SignalKind) :
    (x.deliver kind).sent = x.sent := by
  cases kind <;> rfl

@[simp] theorem deliver_stage (x : Shutdown) (kind : SignalKind) :
    (x.deliver kind).stage = x.stage := by
  cases kind <;> rfl

@[simp] theorem receive_sent (x : Shutdown) (stage : SignaledStage) (kind : SignalKind) :
    (x.receive stage kind).sent = x.sent := by
  cases kind <;> rfl

@[simp] theorem receive_stage (x : Shutdown) (stage : SignaledStage) (kind : SignalKind) :
    (x.receive stage kind).stage = stage := by
  cases kind <;> rfl

@[simp] theorem deliver_notified (x : Shutdown) (kind : SignalKind) :
    (x.deliver kind).notified = x.notified := by
  cases kind <;> rfl

/-! ## What a poll does -/

/-- Everything that a poll of a branch can do. -/
inductive Polled (x : Shutdown) (watches : Nat) : Shutdown → Prop
  | signaled {kind : SignalKind} {todo : List ListenBranch}
      (hstage : x.stage = .listening (.recv kind :: todo)) (hpending : x.pending kind = true) :
      Polled x watches (x.receive (.draining []) kind)
  | notSignaled {branch : ListenBranch} {todo : List ListenBranch}
      (hstage : x.stage = .listening (branch :: todo))
      (hpending : ∀ kind, branch = .recv kind → x.pending kind = false)
      (hwatches : branch = .closed → watches ≠ 0) :
      Polled x watches { x with stage := .listening todo }
  | closed {todo : List ListenBranch} (hstage : x.stage = .listening (.closed :: todo))
      (hwatches : watches = 0) : Polled x watches { x with stage := .returned .ok }
  | drained {todo : List DrainBranch} (hstage : x.stage = .draining (.drain :: todo))
      (hwatches : watches = 0) :
      Polled x watches { x with sent := true, stage := .returned .ok }
  | notDrained {todo : List DrainBranch} (hstage : x.stage = .draining (.drain :: todo))
      (hwatches : watches ≠ 0) :
      Polled x watches { x with sent := true, stage := .draining todo }
  | aborted {kind : SignalKind} {todo : List DrainBranch}
      (hstage : x.stage = .draining (.recv kind :: todo)) (hpending : x.pending kind = true) :
      Polled x watches (x.receive (.returned .aborted) kind)
  | notAborted {kind : SignalKind} {todo : List DrainBranch}
      (hstage : x.stage = .draining (.recv kind :: todo))
      (hpending : x.pending kind = false) :
      Polled x watches { x with stage := .draining todo }

theorem pollBranch_polled {x x' : Shutdown} {watches : Nat}
    (h : x.pollBranch watches = some x') : Polled x watches x' := by
  unfold pollBranch at h
  split at h
  · rename_i kind todo hstage
    obtain rfl := Option.some.inj h
    cases hpending : x.pending kind with
    | true => exact Polled.signaled hstage hpending
    | false =>
        refine Polled.notSignaled hstage ?_ nofun
        rintro kind' hbranch
        obtain rfl := ListenBranch.recv.inj hbranch
        exact hpending
  · rename_i todo hstage
    obtain rfl := Option.some.inj h
    by_cases hwatches : watches = 0
    · rw [if_pos hwatches]
      exact Polled.closed hstage hwatches
    · rw [if_neg hwatches]
      exact Polled.notSignaled hstage nofun fun _ => hwatches
  · rename_i todo hstage
    obtain rfl := Option.some.inj h
    by_cases hwatches : watches = 0
    · rw [if_pos hwatches]
      exact Polled.drained hstage hwatches
    · rw [if_neg hwatches]
      exact Polled.notDrained hstage hwatches
  · rename_i kind todo hstage
    obtain rfl := Option.some.inj h
    cases hpending : x.pending kind with
    | true => exact Polled.aborted hstage hpending
    | false => exact Polled.notAborted hstage hpending
  · cases h

/-! ## Signals that were received -/

/-- The signals that `signaled` must have taken to be where it is. -/
def taken : SignaledStage → Nat
  | .created | .listening _ | .returned .ok => 0
  | .draining _ => 1
  | .returned .aborted => 2

/-- The signals that were taken, and those that are there to be taken. -/
def seen (x : Shutdown) : Nat := taken x.stage + x.interrupt.toNat + x.terminate.toNat

theorem seen_deliver_le (x : Shutdown) (kind : SignalKind) :
    (x.deliver kind).seen ≤ x.seen + 1 := by
  cases kind with
  | interrupt =>
      simp only [seen, deliver, Bool.toNat_true]
      omega
  | terminate =>
      simp only [seen, deliver, Bool.toNat_true]
      omega

/-- A signal that is taken was there before. -/
theorem seen_receive (x : Shutdown) {kind : SignalKind} (hpending : x.pending kind = true)
    (stage : SignaledStage) :
    (x.receive stage kind).seen + 1 + taken x.stage = x.seen + taken stage := by
  cases kind with
  | interrupt =>
      have hinterrupt : x.interrupt = true := hpending
      simp only [seen, receive, hinterrupt, Bool.toNat_true, Bool.toNat_false]
      omega
  | terminate =>
      have hterminate : x.terminate = true := hpending
      simp only [seen, receive, hterminate, Bool.toNat_true, Bool.toNat_false]
      omega

theorem seen_pos (x : Shutdown) {kind : SignalKind} (hpending : x.pending kind = true) :
    0 < x.seen := by
  cases kind with
  | interrupt =>
      have hinterrupt : x.interrupt = true := hpending
      simp only [seen, hinterrupt, Bool.toNat_true]
      omega
  | terminate =>
      have hterminate : x.terminate = true := hpending
      simp only [seen, hterminate, Bool.toNat_true]
      omega

/-- A poll takes no signal that was not there. -/
theorem Polled.seen_le {x x' : Shutdown} {watches : Nat} (h : Polled x watches x') :
    x'.seen ≤ x.seen := by
  cases h with
  | signaled hstage hpending =>
      have hseen := seen_receive x hpending (.draining [])
      rw [hstage] at hseen
      simp only [taken] at hseen
      omega
  | aborted hstage hpending =>
      have hseen := seen_receive x hpending (.returned .aborted)
      rw [hstage] at hseen
      simp only [taken] at hseen
      omega
  | notSignaled hstage | closed hstage | drained hstage | notDrained hstage
  | notAborted hstage =>
      simp only [seen, hstage, taken]
      omega

/-- The first `select!` is over. -/
def begun (x : Shutdown) : Bool :=
  match x.stage with
  | .created | .listening _ => false
  | .draining _ | .returned _ => true

/-- As long as a `Watch` is alive, only a signal ends the first `select!`. -/
theorem Polled.begun_of {x x' : Shutdown} {watches : Nat} (h : Polled x watches x')
    (hwatches : x.begun = false → watches ≠ 0) (hbegun : x'.begun = true) :
    x.begun = true ∨ 0 < x.seen := by
  cases h with
  | signaled _ hpending => exact Or.inr (x.seen_pos hpending)
  | notSignaled => cases hbegun
  | closed hstage hnone =>
      have hbefore : x.begun = false := by simp [begun, hstage]
      exact absurd hnone (hwatches hbefore)
  | drained hstage | notDrained hstage | aborted hstage | notAborted hstage =>
      exact Or.inl (by simp [begun, hstage])

/-- The channel is not told to drain before the first `select!` is over. -/
def SendsLate (x : Shutdown) : Prop := x.sent = true → x.begun = true

theorem SendsLate.polled {x x' : Shutdown} {watches : Nat} (hlate : x.SendsLate)
    (h : Polled x watches x') : x'.SendsLate := by
  cases h with
  | notSignaled hstage =>
      intro hsent
      have hbegun := hlate hsent
      simp [begun, hstage] at hbegun
  | signaled | closed | drained | notDrained | aborted | notAborted =>
      intro _
      simp [begun]

/-- Whoever is notified is notified after the first `select!`. -/
theorem SendsLate.begun_of_notified {x : Shutdown} (hlate : x.SendsLate)
    (hnotified : x.notified = true) : x.begun = true := by
  rcases Bool.or_eq_true_iff.mp hnotified with hsent | hreturned
  · exact hlate hsent
  · unfold begun
    split at hreturned
    · rename_i hstage
      rw [hstage]
    · cases hreturned

/-! ## Polling on -/

/-- The steps of a poll of `signaled`. -/
inductive PollAction
  | select (from_ : Fin 3)
  | branch
deriving DecidableEq, Repr

/-- A step of a poll, while this number of `Watch`es and latches is alive. -/
def poll? (watches : Nat) (x : Shutdown) : PollAction → Option Shutdown
  | .select from_ => x.select from_
  | .branch => x.pollBranch watches

/-- The step relation of polls alone. -/
def Polls (watches : Nat) (x : Shutdown) (a : PollAction) (x' : Shutdown) : Prop :=
  x.poll? watches a = some x'

/-- Polls whose `select!`s all begin with this branch. -/
def FromBranch (from_ : Fin 3) (actions : List PollAction) : Prop :=
  ∀ a ∈ actions, a = .branch ∨ a = .select from_

/-- `signaled` has returned. -/
def Returned (x : Shutdown) : Prop := ∃ result, x.stage = .returned result

theorem Returned.notified {x : Shutdown} (h : x.Returned) : x.notified = true := by
  obtain ⟨result, hstage⟩ := h
  simp [Shutdown.notified, hstage]

/-- What is polled has been started, and was not over. -/
theorem Polls.stage_ne {watches : Nat} {x x' : Shutdown} {a : PollAction}
    (h : Polls watches x a x') : x.stage ≠ .created ∧ x'.stage ≠ .created ∧
      (x.notified = true → x'.notified = true) ∧ (x.SendsLate → x'.SendsLate) := by
  cases a with
  | branch =>
      have hpolled := pollBranch_polled h
      have hlate : x.SendsLate → x'.SendsLate := fun hlate => hlate.polled hpolled
      cases hpolled with
      | signaled hstage | notSignaled hstage | closed hstage | drained hstage
      | notDrained hstage | aborted hstage | notAborted hstage =>
          refine ⟨by simp [hstage], by simp, ?_, hlate⟩
          intro hnotified
          simp_all [notified]
  | select from_ =>
      simp only [Polls, poll?, select] at h
      split at h
      · rename_i hstage
        obtain rfl := Option.some.inj h
        refine ⟨by simp [hstage], nofun, by simp [notified, hstage], ?_⟩
        intro hlate hsent
        have hbegun := hlate hsent
        simp [begun, hstage] at hbegun
      · rename_i hstage
        obtain rfl := Option.some.inj h
        exact ⟨by simp [hstage], nofun, by simp [notified, hstage], fun _ _ => rfl⟩
      · cases h

theorem Polls.seen_le {watches : Nat} {x x' : Shutdown} {a : PollAction}
    (h : Polls watches x a x') : x'.seen ≤ x.seen := by
  cases a with
  | branch => exact (pollBranch_polled h).seen_le
  | select from_ =>
      simp only [Polls, poll?, select] at h
      split at h
      · rename_i hstage
        obtain rfl := Option.some.inj h
        simp only [seen, hstage, taken, le_refl]
      · rename_i hstage
        obtain rfl := Option.some.inj h
        simp only [seen, hstage, taken, le_refl]
      · cases h

/-- The rest of a poll of the first `select!`: it ends the `select!`, or no branch was
ready. -/
theorem exists_finish_listening (watches : Nat) {x : Shutdown} {todo : List ListenBranch}
    (hstage : x.stage = .listening todo) (from_ : Fin 3) :
    ∃ actions x', FromBranch from_ actions ∧ Run (Polls watches) x actions x' ∧
      (x'.Returned ∨ x'.stage = .draining [] ∨
        (x' = { x with stage := .listening [] } ∧
          ∀ kind, .recv kind ∈ todo → x.pending kind = false)) := by
  induction todo generalizing x with
  | nil =>
      refine ⟨[], x, nofun, Run.nil x, Or.inr (Or.inr ⟨?_, nofun⟩)⟩
      rw [← hstage]
  | cons branch todo ih =>
      obtain ⟨x', hpoll⟩ : ∃ x', x.pollBranch watches = some x' := by
        cases branch <;> simp [pollBranch, hstage]
      have hone : Run (Polls watches) x [.branch] x' := Run.cons hpoll (Run.nil x')
      have hbranch : FromBranch from_ [.branch] := by simp [FromBranch]
      cases pollBranch_polled hpoll with
      | signaled => exact ⟨_, _, hbranch, hone, Or.inr (Or.inl (receive_stage _ _ _))⟩
      | closed => exact ⟨_, _, hbranch, hone, Or.inl ⟨.ok, rfl⟩⟩
      | @notSignaled branch' todo' hstage' hpending hwatches =>
          rw [hstage] at hstage'
          obtain ⟨rfl, rfl⟩ := List.cons.inj (SignaledStage.listening.inj hstage')
          obtain ⟨actions, x', hfrom, hrun, hend⟩ :=
            ih (x := { x with stage := .listening todo }) rfl
          refine ⟨.branch :: actions, x', ?_, Run.cons hpoll hrun, ?_⟩
          · exact List.forall_mem_cons.mpr ⟨Or.inl rfl, hfrom⟩
          · rcases hend with hreturned | hdraining | ⟨hx', hnone⟩
            · exact Or.inl hreturned
            · exact Or.inr (Or.inl hdraining)
            · refine Or.inr (Or.inr ⟨hx', ?_⟩)
              intro kind hmem
              rcases List.mem_cons.mp hmem with hkind | hlater
              · exact hpending kind hkind.symm
              · exact hnone kind hlater
      | drained hother | notDrained hother | aborted hother | notAborted hother =>
          rw [hstage] at hother
          cases hother

/-- The rest of a poll of the second `select!`: `signaled` returns, or no branch was
ready, and then the channel has been told to drain. -/
theorem exists_finish_draining (watches : Nat) {x : Shutdown} {todo : List DrainBranch}
    (hstage : x.stage = .draining todo) (from_ : Fin 3) :
    ∃ actions x', FromBranch from_ actions ∧ Run (Polls watches) x actions x' ∧
      (x'.Returned ∨
        (x'.stage = .draining [] ∧ (∀ kind, x'.pending kind = x.pending kind) ∧
          (∀ kind, .recv kind ∈ todo → x.pending kind = false) ∧
          (.drain ∈ todo → x'.sent = true ∧ watches ≠ 0) ∧
          (x.sent = true → x'.sent = true))) := by
  induction todo generalizing x with
  | nil =>
      exact ⟨[], x, nofun, Run.nil x,
        Or.inr ⟨hstage, fun _ => rfl, nofun, nofun, fun hsent => hsent⟩⟩
  | cons branch todo ih =>
      obtain ⟨x', hpoll⟩ : ∃ x', x.pollBranch watches = some x' := by
        cases branch <;> simp [pollBranch, hstage]
      have hone : Run (Polls watches) x [.branch] x' := Run.cons hpoll (Run.nil x')
      have hbranch : FromBranch from_ [.branch] := by simp [FromBranch]
      cases pollBranch_polled hpoll with
      | drained => exact ⟨_, _, hbranch, hone, Or.inl ⟨.ok, rfl⟩⟩
      | aborted => exact ⟨_, _, hbranch, hone, Or.inl ⟨.aborted, receive_stage _ _ _⟩⟩
      | @notDrained todo' hstage' hwatches =>
          rw [hstage] at hstage'
          obtain ⟨rfl, rfl⟩ := List.cons.inj (SignaledStage.draining.inj hstage')
          obtain ⟨actions, x', hfrom, hrun, hend⟩ :=
            ih (x := { x with sent := true, stage := .draining todo }) rfl
          refine ⟨.branch :: actions, x', ?_, Run.cons hpoll hrun, ?_⟩
          · exact List.forall_mem_cons.mpr ⟨Or.inl rfl, hfrom⟩
          · rcases hend with hreturned | ⟨hdraining, hsame, hnone, -, hsent⟩
            · exact Or.inl hreturned
            · refine Or.inr ⟨hdraining, ?_, ?_, fun _ => ⟨hsent rfl, hwatches⟩,
                fun _ => hsent rfl⟩
              · intro kind
                rw [hsame kind]
                cases kind <;> rfl
              · intro kind hmem
                rcases List.mem_cons.mp hmem with hkind | hlater
                · cases hkind
                · have hquiet := hnone kind hlater
                  cases kind <;> exact hquiet
      | @notAborted kind todo' hstage' hpending =>
          rw [hstage] at hstage'
          obtain ⟨rfl, rfl⟩ := List.cons.inj (SignaledStage.draining.inj hstage')
          obtain ⟨actions, x', hfrom, hrun, hend⟩ :=
            ih (x := { x with stage := .draining todo }) rfl
          refine ⟨.branch :: actions, x', ?_, Run.cons hpoll hrun, ?_⟩
          · exact List.forall_mem_cons.mpr ⟨Or.inl rfl, hfrom⟩
          · rcases hend with hreturned | ⟨hdraining, hsame, hnone, hdrain, hsent⟩
            · exact Or.inl hreturned
            · refine Or.inr ⟨hdraining, ?_, ?_, ?_, hsent⟩
              · intro kind'
                rw [hsame kind']
                cases kind' <;> rfl
              · intro kind' hmem
                rcases List.mem_cons.mp hmem with hkind | hlater
                · obtain rfl := DrainBranch.recv.inj hkind
                  exact hpending
                · have hquiet := hnone kind' hlater
                  cases kind' <;> exact hquiet
              · intro hmem
                rcases List.mem_cons.mp hmem with hkind | hlater
                · cases hkind
                · exact hdrain hlater
      | signaled hother | notSignaled hother | closed hother =>
          rw [hstage] at hother
          cases hother

/-- Once the shutdown has begun, a poll returns if nobody is left or another signal is
there; otherwise everybody has been told. -/
theorem exists_poll_draining (watches : Nat) {x : Shutdown} {todo : List DrainBranch}
    (hstage : x.stage = .draining todo) (from_ : Fin 3) :
    ∃ actions x', FromBranch from_ actions ∧ Run (Polls watches) x actions x' ∧
      x'.notified = true ∧
      ((∃ kind, x.pending kind = true) ∨ watches = 0 → x'.Returned) := by
  obtain ⟨first, y, hfirst, hrun, hend⟩ := exists_finish_draining watches hstage from_
  rcases hend with hreturned | ⟨hdraining, hsame, -⟩
  · exact ⟨first, y, hfirst, hrun, hreturned.notified, fun _ => hreturned⟩
  have hselect : Polls watches y (.select from_)
      { y with stage := .draining (drainBranches.rotate from_) } := by
    simp [Polls, poll?, select, hdraining]
  obtain ⟨second, z, hsecond, hrest, hlast⟩ :=
    exists_finish_draining watches (x := { y with stage := _ }) rfl from_
  refine ⟨first ++ .select from_ :: second, z, ?_, hrun.append (Run.cons hselect hrest), ?_⟩
  · exact List.forall_mem_append.mpr
      ⟨hfirst, List.forall_mem_cons.mpr ⟨Or.inr rfl, hsecond⟩⟩
  · rcases hlast with hreturned | ⟨-, -, hnone, hdrain, -⟩
    · exact ⟨hreturned.notified, fun _ => hreturned⟩
    · obtain ⟨hsent, hwatches⟩ := hdrain (List.mem_rotate.mpr (by simp [drainBranches]))
      refine ⟨by simp [notified, hsent], ?_⟩
      rintro (⟨kind, hpending⟩ | hzero)
      · have hquiet := hnone kind
          (List.mem_rotate.mpr (by cases kind <;> simp [drainBranches]))
        rw [← hsame kind] at hpending
        cases kind <;> exact absurd hpending (Bool.eq_false_iff.mp hquiet)
      · exact absurd hzero hwatches

/-- A signal that is there when the first `select!` is polled is taken, and everybody is
told. -/
theorem exists_poll_listening (watches : Nat) {x : Shutdown} {todo : List ListenBranch}
    (hstage : x.stage = .listening todo) {kind : SignalKind}
    (hpending : x.pending kind = true) (from_ : Fin 3) :
    ∃ actions x', FromBranch from_ actions ∧ Run (Polls watches) x actions x' ∧
      x'.notified = true := by
  -- It is enough to get to the second `select!`.
  have hgoOn : ∀ actions y, FromBranch from_ actions → Run (Polls watches) x actions y →
      y.Returned ∨ y.stage = .draining [] →
      ∃ actions x', FromBranch from_ actions ∧ Run (Polls watches) x actions x' ∧
        x'.notified = true := by
    rintro actions y hfrom hrun (hreturned | hdraining)
    · exact ⟨actions, y, hfrom, hrun, hreturned.notified⟩
    · obtain ⟨more, z, hmore, hrest, hnotified, -⟩ :=
        exists_poll_draining watches hdraining from_
      exact ⟨actions ++ more, z, List.forall_mem_append.mpr ⟨hfrom, hmore⟩,
        hrun.append hrest, hnotified⟩
  obtain ⟨first, y, hfirst, hrun, hend⟩ := exists_finish_listening watches hstage from_
  rcases hend with hreturned | hdraining | ⟨hy, -⟩
  · exact hgoOn first y hfirst hrun (Or.inl hreturned)
  · exact hgoOn first y hfirst hrun (Or.inr hdraining)
  have hselect : Polls watches y (.select from_)
      { x with stage := .listening (listenBranches.rotate from_) } := by
    simp [Polls, poll?, select, hy]
  obtain ⟨second, z, hsecond, hrest, hlast⟩ :=
    exists_finish_listening watches (x := { x with stage := _ }) rfl from_
  have hboth := hrun.append (Run.cons hselect hrest)
  have hfrom : FromBranch from_ (first ++ .select from_ :: second) :=
    List.forall_mem_append.mpr ⟨hfirst, List.forall_mem_cons.mpr ⟨Or.inr rfl, hsecond⟩⟩
  rcases hlast with hreturned | hdraining | ⟨-, hnone⟩
  · exact hgoOn _ z hfrom hboth (Or.inl hreturned)
  · exact hgoOn _ z hfrom hboth (Or.inr hdraining)
  · have hquiet := hnone kind
      (List.mem_rotate.mpr (by cases kind <;> simp [listenBranches]))
    cases kind <;> exact absurd hpending (Bool.eq_false_iff.mp hquiet)

end Shutdown
end Runtime
end Kubert
