import Kubert.Foundation.Transducer
import Kubert.Stream.Adapters
import Mathlib.Data.List.Basic

/-!
# What a watch emits

The inner stream is a script: what it answers to its first poll, to its second, and
so on, whatever the times.  A call of `LogAndSleep` consumes some errors and then
either finds its timer running or passes the next answer on; `Answers` says so, and
is all that the other layers need to know about it.

Along every run of calls the watch has then emitted the items of the script so far,
in order, and the handle is held as long as no item and no end has come.
-/

namespace Kubert
namespace Stream

open Foundation

universe v w

variable {α ε : Type v} {η : Type w}

/-- A stream that answers from a script; its state is how often it was polled. -/
def scripted (script : Nat → Next (Except ε α)) (n : Nat) : Nat × Next (Except ε α) :=
  (n + 1, script n)

/-- What `LogAndSleep` passes on: everything but errors. -/
def pass : Next (Except ε α) → Option (Next α)
  | .pending => some .pending
  | .ready none => some (.ready none)
  | .ready (some (.ok item)) => some (.ready (some item))
  | .ready (some (.error _)) => none

/-- The item of an answer. -/
def Next.item : Next α → Option α
  | .ready (some item) => some item
  | _ => none

/-- The items among the first answers of a script. -/
def okEvents (script : Nat → Next (Except ε α)) (n : Nat) : List α :=
  (List.range n).filterMap fun i => (pass (script i)).bind Next.item

/-! ## What `LogAndSleep` makes of a script -/

/-- Between two positions of the script, errors are skipped and then the timer is
found running or an answer is passed on. -/
inductive Answers (script : Nat → Next (Except ε α)) : Nat → Next α → Nat → Prop
  | asleep (n : Nat) : Answers script n .pending n
  | passed (n : Nat) {answer : Next α} (hpass : pass (script n) = some answer) :
      Answers script n answer (n + 1)
  | erred (n : Nat) {m : Nat} {answer : Next α} (herr : pass (script n) = none)
      (hrest : Answers script (n + 1) answer m) : Answers script n answer m

variable {script : Nat → Next (Except ε α)}

namespace LogAndSleep

/-- A round finds the timer running, or treats the next answer. -/
theorem round_cases (script : Nat → Next (Except ε α)) (clocks : Clocks) (i : Nat)
    (s : LogAndSleep Nat) :
    round (scripted script) clocks i s = (s, some .pending) ∨
      ((round (scripted script) clocks i s).1.stream = s.stream + 1 ∧
        (round (scripted script) clocks i s).2 = pass (script s.stream)) := by
  by_cases hsleep : s.sleeping ∧ clocks.polled i < s.sleep
  · left
    rw [round, if_pos hsleep]
  · right
    rw [round, if_neg hsleep]
    rcases hanswer : script s.stream with (_ | _ | _) | _ <;>
      simp [scripted, hanswer, pass]

/-- A call that returns answers from the script. -/
theorem answers_of_pollNext {clocks : Clocks} {fuel i : Nat} {s s' : LogAndSleep Nat}
    {answer : Next α}
    (hpoll : pollNext (scripted script) clocks fuel i s = some (s', answer)) :
    Answers script s.stream answer s'.stream := by
  induction fuel generalizing i s with
  | zero => cases hpoll
  | succ fuel ih =>
      rw [pollNext] at hpoll
      rcases hround : round (scripted script) clocks i s with ⟨mid, _ | returned⟩
      · rw [hround] at hpoll
        rcases round_cases script clocks i s with hasleep | ⟨hstream, hpass⟩
        · rw [hround] at hasleep
          cases hasleep
        · rw [hround] at hstream hpass
          have hrest := ih hpoll
          rw [hstream] at hrest
          exact .erred _ hpass.symm hrest
      · rw [hround] at hpoll
        cases hpoll
        rcases round_cases script clocks i s with hasleep | ⟨hstream, hpass⟩
        · rw [hround] at hasleep
          cases hasleep
          exact .asleep _
        · rw [hround] at hstream hpass
          rw [hstream]
          exact .passed _ hpass.symm

/-- A call returns if the script does not go on with errors for ever. -/
theorem exists_pollNext (clocks : Clocks) (i : Nat) (s : LogAndSleep Nat) {k : Nat}
    (hpass : pass (script (s.stream + k)) ≠ none) :
    ∃ fuel s' answer, pollNext (scripted script) clocks fuel i s = some (s', answer) := by
  induction k generalizing i s with
  | zero =>
      rcases round_cases script clocks i s with hasleep | ⟨-, hanswer⟩
      · exact ⟨1, s, .pending, by rw [pollNext, hasleep]⟩
      · obtain ⟨answer, hsome⟩ := Option.ne_none_iff_exists'.mp hpass
        rcases hround : round (scripted script) clocks i s with ⟨s', returned⟩
        rw [hround] at hanswer
        obtain rfl : returned = some answer := hanswer.trans hsome
        exact ⟨1, s', answer, by rw [pollNext, hround]⟩
  | succ k ih =>
      rcases hround : round (scripted script) clocks i s with ⟨mid, _ | answer⟩
      · have hstream : mid.stream = s.stream + 1 := by
          rcases round_cases script clocks i s with hasleep | ⟨hstream, -⟩
          · rw [hround] at hasleep
            cases hasleep
          · rw [hround] at hstream
            exact hstream
        have hnext : pass (script (mid.stream + k)) ≠ none := by
          rw [hstream, Nat.add_right_comm]
          exact hpass
        obtain ⟨fuel, s', answer, hpoll⟩ := ih (i + 1) mid hnext
        exact ⟨fuel + 1, s', answer, by rw [pollNext, hround]; exact hpoll⟩
      · exact ⟨1, mid, answer, by rw [pollNext, hround]⟩

end LogAndSleep

namespace Answers

variable {n m : Nat} {answer : Next α}

/-- The position only moves forward. -/
theorem le (h : Answers script n answer m) : n ≤ m := by
  induction h with
  | asleep n => exact Nat.le_refl n
  | passed n _ => exact Nat.le_succ n
  | erred n _ _ ih => exact Nat.le_of_succ_le ih

/-- The items of the script are emitted. -/
theorem okEvents_eq (h : Answers script n answer m) :
    okEvents script m = okEvents script n ++ answer.item.toList := by
  induction h with
  | asleep n => simp [Next.item]
  | passed n hpass =>
      rw [okEvents, List.range_succ, List.filterMap_append]
      cases hitem : Next.item _ <;> simp [okEvents, hpass, hitem]
  | erred n herr _ ih =>
      rw [ih]
      simp [okEvents, List.range_succ, herr]

/-- Whatever is passed on is the last answer that was taken from the script. -/
theorem pass_eq (h : Answers script n answer m) {k : Nat} {passed : Next α}
    (hnk : n ≤ k) (hkm : k < m) (hpass : pass (script k) = some passed) :
    answer = passed := by
  induction h with
  | asleep n => omega
  | passed n hn =>
      obtain rfl : n = k := by omega
      exact Option.some.inj (hn.symm.trans hpass)
  | erred n herr _ ih =>
      rcases Nat.lt_or_eq_of_le hnk with hlt | rfl
      · exact ih hlt hkm
      · rw [herr] at hpass
        cases hpass

/-- An answer that is ready was taken from the script. -/
theorem exists_pass (h : Answers script n answer m) (hready : answer ≠ .pending) :
    ∃ k, n ≤ k ∧ k < m ∧ pass (script k) = some answer := by
  induction h with
  | asleep n => exact absurd rfl hready
  | passed n hn => exact ⟨n, Nat.le_refl n, Nat.lt_succ_self n, hn⟩
  | erred n herr _ ih =>
      obtain ⟨k, hnk, hkm, hpass⟩ := ih hready
      exact ⟨k, by omega, hkm, hpass⟩

end Answers

/-! ## Runs of a watch -/

/-- What a call of `poll_next` does: what `LogAndSleep` answers, what the watch
returns, and the handle that is dropped. -/
structure Outcome (α : Type v) (η : Type w) where
  wrapped : Next α
  result : Next α
  dropped : Option η

namespace Watch

/-- The number of answers that the inner stream has given. -/
def position (s : Watch Nat η) : Nat := s.inner.inner.stream

/-- A call of `poll_next`, with its outcome. -/
def poll (script : Nat → Next (Except ε α)) (fuel : Nat) (s : Watch Nat η)
    (visit : Visit) : Option (Watch Nat η × Outcome α η) :=
  (LogAndSleep.pollNext (scripted script) visit.clocks fuel 0 s.inner.inner).bind
    fun wrapped => (pollNext (scripted script) fuel visit s).map fun next =>
      (next.1, ⟨wrapped.2, next.2,
        if next.1.inner.handle.isNone then s.inner.handle else none⟩)

/-- A call of `poll_next` that returns. -/
def Polls (script : Nat → Next (Except ε α)) (s : Watch Nat η)
    (call : Visit × Outcome α η) (s' : Watch Nat η) : Prop :=
  ∃ fuel, poll script fuel s call.1 = some (s', call.2)

/-- The two upper layers, given the answer of `LogAndSleep`. -/
def finish (s : Watch Nat η) (visit : Visit) (inner : LogAndSleep Nat) :
    Next α → Option (Watch Nat η × Outcome α η)
  | .ready next =>
      some (⟨⟨inner, none⟩, s.completed⟩, ⟨.ready next, .ready next, s.inner.handle⟩)
  | .pending =>
      if s.completed then none
      else some (⟨⟨inner, s.inner.handle⟩, visit.signaled⟩,
        ⟨.pending, if visit.signaled then .ready none else .pending, none⟩)

/-- A call is a call of `LogAndSleep` followed by the two upper layers. -/
theorem poll_eq (script : Nat → Next (Except ε α)) (fuel : Nat) (s : Watch Nat η)
    (visit : Visit) :
    poll script fuel s visit =
      (LogAndSleep.pollNext (scripted script) visit.clocks fuel 0 s.inner.inner).bind
        fun wrapped => s.finish visit wrapped.1 wrapped.2 := by
  cases hwrapped :
      LogAndSleep.pollNext (scripted script) visit.clocks fuel 0 s.inner.inner with
  | none => simp [poll, hwrapped]
  | some wrapped =>
      obtain ⟨inner, answer⟩ := wrapped
      obtain ⟨⟨inner', handle⟩, completed⟩ := s
      cases answer with
      | ready next => simp [poll, hwrapped, pollNext, CancelOnShutdown.pollNext,
          ReleasesOnReady.pollNext, finish]
      | pending =>
          cases completed <;> cases hsignaled : visit.signaled <;> cases handle <;>
            simp_all [poll, pollNext, CancelOnShutdown.pollNext,
              ReleasesOnReady.pollNext, finish]

/-- What a call that returns can do. -/
structure Moves (script : Nat → Next (Except ε α)) (s : Watch Nat η) (visit : Visit)
    (outcome : Outcome α η) (s' : Watch Nat η) : Prop where
  answers : Answers script s.position outcome.wrapped s'.position
  layers : (∃ next, outcome = ⟨.ready next, .ready next, s.inner.handle⟩ ∧
      s'.inner.handle = none ∧ s'.completed = s.completed) ∨
    (outcome = ⟨.pending, if visit.signaled then .ready none else .pending, none⟩ ∧
      s'.inner.handle = s.inner.handle ∧ s'.completed = visit.signaled)

theorem moves_of_polls {s s' : Watch Nat η} {visit : Visit} {outcome : Outcome α η}
    (hpolls : Polls script s (visit, outcome) s') : Moves script s visit outcome s' := by
  obtain ⟨fuel, hpoll⟩ := hpolls
  change poll script fuel s visit = some (s', outcome) at hpoll
  -- What is known of `LogAndSleep` comes from its own induction; the rest is two cases.
  rw [poll_eq] at hpoll
  obtain ⟨⟨inner, answer⟩, hwrapped, hfinish⟩ := Option.bind_eq_some_iff.mp hpoll
  have hanswers := LogAndSleep.answers_of_pollNext hwrapped
  cases answer with
  | ready next =>
      cases hfinish
      exact ⟨hanswers, .inl ⟨next, rfl, rfl, rfl⟩⟩
  | pending =>
      by_cases hcompleted : s.completed = true
      · rw [finish, if_pos hcompleted] at hfinish
        cases hfinish
      · rw [finish, if_neg hcompleted] at hfinish
        cases hfinish
        exact ⟨hanswers, .inr ⟨rfl, rfl, rfl⟩⟩

/-- Until the end has been returned, a call returns unless the inner stream goes on
with errors for ever. -/
theorem exists_polls {s : Watch Nat η} (hopen : s.completed = false) (visit : Visit)
    {k : Nat} (hpass : pass (script (s.position + k)) ≠ none) :
    ∃ outcome s', Polls script s (visit, outcome) s' := by
  obtain ⟨fuel, inner, answer, hpoll⟩ :=
    LogAndSleep.exists_pollNext visit.clocks 0 s.inner.inner hpass
  have heq : ∀ next, s.finish visit inner answer = some next →
      poll script fuel s visit = some next := by
    intro next hnext
    rw [poll_eq, hpoll, Option.bind_some, hnext]
  cases answer with
  | ready next => exact ⟨_, _, fuel, heq _ rfl⟩
  | pending => exact ⟨_, _, fuel, heq _ (by rw [finish, hopen]; rfl)⟩

end Watch

/-! ## Nothing is lost -/

theorem pass_eq_end_iff {answer : Next (Except ε α)} :
    pass answer = some (.ready none) ↔ answer = .ready none := by
  rcases answer with (_ | _ | _) | _ <;> simp [pass]

/-- The inner stream has ended or produced an item. -/
def Answered (answer : Next (Except ε α)) : Prop :=
  answer = .ready none ∨ ∃ item, answer = .ready (some (.ok item))

theorem answered_iff {answer : Next (Except ε α)} :
    Answered answer ↔ ∃ next, pass answer = some (.ready next) := by
  rcases answer with (_ | _ | _) | _ <;> simp [pass, Answered]

/-- What holds after a run of calls: the items emitted are those of the script, the
handle is held while `LogAndSleep` has only been pending, it is released by an item
or the end and not by an error, and it is dropped once. -/
structure Faithful (script : Nat → Next (Except ε α)) (handle : η)
    (calls : List (Watch.Visit × Outcome α η)) (s : Watch Nat η) : Prop where
  emitted : calls.filterMap (fun call => call.2.result.item) = okEvents script s.position
  held : s.inner.handle = some handle ↔ ∀ call ∈ calls, call.2.wrapped = .pending
  gone : s.inner.handle = none ↔ ∃ call ∈ calls, call.2.wrapped ≠ .pending
  released : s.inner.handle = none ↔ ∃ k < s.position, Answered (script k)
  once : calls.filterMap (fun call => call.2.dropped) =
    if s.inner.handle.isNone then [handle] else []

/-- What holds of one call after a run: an item that the inner stream produces is
returned at once, the end is returned only if the inner stream ends or is pending
under a shutdown, and the first answer of `LogAndSleep` drops the handle. -/
structure FaithfulCall (script : Nat → Next (Except ε α)) (handle : η)
    (calls : List (Watch.Visit × Outcome α η)) (s : Watch Nat η) (visit : Watch.Visit)
    (outcome : Outcome α η) (s' : Watch Nat η) : Prop where
  atOnce : ∀ k item, s.position ≤ k → k < s'.position →
    script k = .ready (some (.ok item)) → outcome.result = .ready (some item)
  ended : outcome.result = .ready none →
    (∃ k, s.position ≤ k ∧ k < s'.position ∧ script k = .ready none) ∨
      (visit.signaled = true ∧ outcome.wrapped = .pending)
  dropped : outcome.dropped = some handle ↔
    outcome.wrapped ≠ .pending ∧ ∀ call ∈ calls, call.2.wrapped = .pending

theorem faithful_new (script : Nat → Next (Except ε α)) (delay now : Nat) (handle : η) :
    Faithful script handle [] (Watch.new delay now handle 0) where
  emitted := rfl
  held := by simp [Watch.new]
  gone := by simp [Watch.new]
  released := by simp [Watch.new, Watch.position, LogAndSleep.fixedDelay]
  once := rfl

section Call

variable {handle : η} {calls : List (Watch.Visit × Outcome α η)} {s s' : Watch Nat η}
  {visit : Watch.Visit} {outcome : Outcome α η}

/-- A call returns the item that `LogAndSleep` answers with, if it does. -/
theorem Watch.Moves.item_eq (hmoves : Watch.Moves script s visit outcome s') :
    outcome.result.item = outcome.wrapped.item := by
  rcases hmoves.layers with ⟨next, rfl, -⟩ | ⟨rfl, -⟩
  · rfl
  · cases visit.signaled <;> rfl

/-- The handle goes when `LogAndSleep` answers, and only then. -/
theorem Watch.Moves.handle_eq (hmoves : Watch.Moves script s visit outcome s') :
    (outcome.wrapped ≠ .pending ∧ outcome.dropped = s.inner.handle ∧
      s'.inner.handle = none) ∨
    (outcome.wrapped = .pending ∧ outcome.dropped = none ∧
      s'.inner.handle = s.inner.handle) := by
  rcases hmoves.layers with ⟨next, rfl, hhandle, -⟩ | ⟨rfl, hhandle, -⟩
  · exact .inl ⟨nofun, rfl, hhandle⟩
  · exact .inr ⟨rfl, rfl, hhandle⟩

/-- `LogAndSleep` answers exactly if the inner stream has. -/
theorem Watch.Moves.answered_iff (hmoves : Watch.Moves script s visit outcome s') :
    outcome.wrapped ≠ .pending ↔
      ∃ k, s.position ≤ k ∧ k < s'.position ∧ Answered (script k) := by
  constructor
  · intro hready
    obtain ⟨k, hle, hlt, hpass⟩ := hmoves.answers.exists_pass hready
    refine ⟨k, hle, hlt, Stream.answered_iff.mpr ?_⟩
    cases hwrapped : outcome.wrapped with
    | ready next => exact ⟨next, hwrapped ▸ hpass⟩
    | pending => exact absurd hwrapped hready
  · rintro ⟨k, hle, hlt, hanswered⟩ hpending
    obtain ⟨next, hpass⟩ := Stream.answered_iff.mp hanswered
    rw [hmoves.answers.pass_eq hle hlt hpass] at hpending
    cases hpending

/-- There is no other handle. -/
theorem Faithful.handle_eq (h : Faithful script handle calls s) :
    s.inner.handle = none ∨ s.inner.handle = some handle := by
  by_cases hall : ∀ call ∈ calls, call.2.wrapped = .pending
  · exact .inr (h.held.mpr hall)
  · left
    refine h.gone.mpr ?_
    by_contra hnone
    refine hall fun call hmem => ?_
    by_contra hready
    exact hnone ⟨call, hmem, hready⟩

theorem Faithful.call (h : Faithful script handle calls s)
    (hmoves : Watch.Moves script s visit outcome s') :
    FaithfulCall script handle calls s visit outcome s' := by
  constructor
  · intro k item hle hlt hitem
    have hwrapped : outcome.wrapped = .ready (some item) :=
      hmoves.answers.pass_eq hle hlt (by rw [hitem]; rfl)
    rcases hmoves.layers with ⟨next, rfl, -⟩ | ⟨rfl, -⟩
    · exact hwrapped
    · cases hwrapped
  · intro hend
    rcases hmoves.layers with ⟨next, rfl, -⟩ | ⟨rfl, -⟩
    · left
      obtain ⟨k, hle, hlt, hpass⟩ := hmoves.answers.exists_pass nofun
      refine ⟨k, hle, hlt, pass_eq_end_iff.mp ?_⟩
      rw [hpass]
      exact congrArg some hend
    · right
      refine ⟨?_, rfl⟩
      by_contra hsignaled
      rw [Bool.not_eq_true] at hsignaled
      simp [hsignaled] at hend
  · rcases hmoves.handle_eq with ⟨hready, hdropped, -⟩ | ⟨hpending, hdropped, -⟩
    · rw [hdropped, h.held]
      simp [hready]
    · simp [hdropped, hpending]

theorem Faithful.concat (h : Faithful script handle calls s)
    (hmoves : Watch.Moves script s visit outcome s') :
    Faithful script handle (calls ++ [(visit, outcome)]) s' := by
  have hle := hmoves.answers.le
  constructor
  · rw [List.filterMap_append, h.emitted, hmoves.answers.okEvents_eq, ← hmoves.item_eq]
    cases hitem : outcome.result.item <;> simp [hitem]
  · rcases hmoves.handle_eq with ⟨hready, -, hhandle⟩ | ⟨hpending, -, hhandle⟩
    · constructor
      · intro hsome
        rw [hhandle] at hsome
        cases hsome
      · intro hall
        exact absurd (hall (visit, outcome) (by simp)) hready
    · rw [hhandle, h.held]
      simp [or_imp, forall_and, hpending]
  · rcases hmoves.handle_eq with ⟨hready, -, hhandle⟩ | ⟨hpending, -, hhandle⟩
    · exact ⟨fun _ => ⟨(visit, outcome), by simp, hready⟩, fun _ => hhandle⟩
    · rw [hhandle, h.gone]
      simp [or_and_right, exists_or, hpending]
  · rcases hmoves.handle_eq with ⟨hready, -, hhandle⟩ | ⟨hpending, -, hhandle⟩
    · obtain ⟨k, -, hlt, hanswered⟩ := hmoves.answered_iff.mp hready
      exact ⟨fun _ => ⟨k, hlt, hanswered⟩, fun _ => hhandle⟩
    · rw [hhandle, h.released]
      constructor
      · rintro ⟨k, hlt, hanswered⟩
        exact ⟨k, by omega, hanswered⟩
      · rintro ⟨k, hlt, hanswered⟩
        refine ⟨k, ?_, hanswered⟩
        -- An answer during this call would not leave it pending.
        by_contra hge
        exact hmoves.answered_iff.mpr ⟨k, by omega, hlt, hanswered⟩ hpending
  · rw [List.filterMap_append, h.once]
    rcases hmoves.handle_eq with ⟨-, hdropped, hhandle⟩ | ⟨-, hdropped, hhandle⟩
    · rcases h.handle_eq with hs | hs <;> simp [hdropped, hhandle, hs]
    · simp [hdropped, hhandle]

end Call

/-- Once the shutdown future has completed, the end has been returned. -/
theorem completed_of_run {delay now : Nat} {handle : η}
    {calls : List (Watch.Visit × Outcome α η)} {s : Watch Nat η}
    (hrun : Run (Watch.Polls script) (Watch.new delay now handle 0) calls s)
    (hopen : ∀ call ∈ calls, call.2.result ≠ .ready none) : s.completed = false := by
  have hinv := hrun.history
    (fun calls s => s.completed = true → ∃ call ∈ calls, call.2.result = .ready none) ?_ nofun
  · by_contra hcompleted
    obtain ⟨call, hmem, hend⟩ := hinv (by simpa using hcompleted)
    exact hopen call hmem hend
  · rintro calls s ⟨visit, outcome⟩ s' h hpolls hcompleted
    rcases (Watch.moves_of_polls hpolls).layers with ⟨-, -, -, hs'⟩ | ⟨rfl, -, hs'⟩
    · obtain ⟨call, hmem, hend⟩ := h (hs' ▸ hcompleted)
      exact ⟨call, List.mem_append_left _ hmem, hend⟩
    · refine ⟨_, List.mem_append_right _ (List.mem_singleton_self _), ?_⟩
      rw [hs'] at hcompleted
      exact if_pos hcompleted

/-- A watch loses, duplicates and reorders nothing.  After every run of calls, for
every script of the inner stream, every delay, all clock readings and every moment of
the shutdown, the emitted items are those of the script so far; each further call is
faithful, and it returns if the end has not been returned and the inner stream does
not go on with errors for ever. -/
theorem watch_loses_nothing (script : Nat → Next (Except ε α)) (delay now : Nat)
    (handle : η) {calls : List (Watch.Visit × Outcome α η)} {s : Watch Nat η}
    (hrun : Run (Watch.Polls script) (Watch.new delay now handle 0) calls s) :
    Faithful script handle calls s ∧
      (∀ visit outcome s', Watch.Polls script s (visit, outcome) s' →
        FaithfulCall script handle calls s visit outcome s') ∧
      ((∀ call ∈ calls, call.2.result ≠ .ready none) → ∀ visit k,
        pass (script (s.position + k)) ≠ none →
          ∃ outcome s', Watch.Polls script s (visit, outcome) s') := by
  have hfaithful : Faithful script handle calls s := by
    refine hrun.history (Faithful script handle) ?_ (faithful_new script delay now handle)
    rintro calls s ⟨visit, outcome⟩ s' h hpolls
    exact h.concat (Watch.moves_of_polls hpolls)
  refine ⟨hfaithful, ?_, ?_⟩
  · intro visit outcome s' hpolls
    exact hfaithful.call (Watch.moves_of_polls hpolls)
  · intro hopen visit k hpass
    exact Watch.exists_polls (completed_of_run hrun hopen) visit hpass

/-- A call during which the clock stands still. -/
def visitAt (time : Nat) (signaled : Bool) : Watch.Visit :=
  ⟨⟨fun _ => time, fun _ => time⟩, signaled⟩

/-- An item after one error, and another one after two. -/
def retryScript : Nat → Next (Except String String)
  | 1 | 3 | 4 => .ready (some (.error "unavailable"))
  | 2 => .ready (some (.ok "pod-a"))
  | 5 => .ready (some (.ok "pod-b"))
  | _ => .pending

/-- The last two calls are made under a shutdown. -/
def retryVisits : List Watch.Visit :=
  [visitAt 0 false, visitAt 1 false, visitAt 2 false, visitAt 4 false, visitAt 5 true,
    visitAt 6 true]

/-- A call with enough fuel for three rounds. -/
def retryPoll (s : Watch Nat Unit) (visit : Watch.Visit) :
    Option (Watch Nat Unit × List (Watch.Visit × Outcome String Unit)) :=
  (Watch.poll retryScript 3 s visit).map fun next => (next.1, [(visit, next.2)])

theorem retried_watch_loses_nothing :
    ∃ calls s, Run (Watch.Polls retryScript) (Watch.new 3 0 () 0) calls s ∧
      Faithful retryScript () calls s ∧ s.position = 7 ∧
      calls.map (fun call => call.2.result) =
        [.pending, .ready (some "pod-a"), .pending, .pending, .ready (some "pod-b"),
          .ready none] := by
  obtain ⟨⟨s, calls⟩, heval⟩ : ∃ last,
      Transducer.run retryPoll (Watch.new 3 0 () 0) retryVisits = some last := ⟨_, rfl⟩
  have hrun : Run (Watch.Polls retryScript) (Watch.new 3 0 () 0) calls s := by
    refine Transducer.isRun_of_run ?_ heval
    intro s visit s' calls hstep
    obtain ⟨next, hpoll, hnext⟩ := Option.map_eq_some_iff.mp hstep
    cases hnext
    exact Run.cons ⟨3, hpoll⟩ (Run.nil _)
  refine ⟨calls, s, hrun, (watch_loses_nothing retryScript 3 0 () hrun).1, ?_⟩
  have hlast := congrArg (Option.map fun last =>
    (last.1.position, last.2.map fun call => call.2.result)) heval
  rw [Option.map_some] at hlast
  exact Prod.mk.inj (Option.some.inj (hlast.symm.trans rfl))

end Stream
end Kubert
