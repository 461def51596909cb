import Kubert.Foundation.LabelledRun
import Kubert.Stream.Adapters
import Mathlib.Order.Monotone.Basic

/-!
# When `LogAndSleep` waits

The loop of `LogAndSleep` is cut into its rounds.  A round finds the timer running and
returns, or it polls the inner stream; it reads the clock when it polls the timer and
when it handles an error.  Calls of `poll_next` are made at any time, and each of them
is some rounds, of which only the last one returns (`run_of_pollNext`), so that what is
said of runs of rounds holds of calls (`calls_wait_for_delay`).

What the adapter does depends on the last answer of the inner stream that was not
pending.  `failed` says whether it was an error, and a timer that runs was started by an
error that followed another one, after which the inner stream has not been polled
(`Sound`).
-/

namespace Kubert
namespace Stream

open Foundation

universe u v

variable {σ : Type u} {α ε : Type v}

/-! ## Rounds -/

/-- One round of the loop: whether a call begins with it, the two clock readings, the
answer of the inner stream if it is polled, and what is returned if the call ends. -/
structure Round (α ε : Type v) where
  opens : Bool
  polled : Nat
  erred : Nat
  answer : Option (Next (Except ε α))
  returned : Option (Next α)

/-- The inner stream answers with an error. -/
def Round.Errs (r : Round α ε) : Prop := ∃ e, r.answer = some (.ready (some (.error e)))

/-- The adapter, whether a call is under way, and the last clock reading. -/
structure Polling (σ : Type u) where
  adapter : LogAndSleep σ
  calling : Bool
  now : Nat

namespace LogAndSleep

/-- The timer is found running. -/
def asleep (s : LogAndSleep σ) (polled : Nat) : Bool :=
  s.sleeping && decide (polled < s.sleep)

/-- The step relation: a call goes on, or the next one begins, at a time that is not
before the last reading. -/
structure Step (pollStream : σ → σ × Next (Except ε α)) (x : Polling σ) (r : Round α ε)
    (y : Polling σ) : Prop where
  opens : r.opens = !x.calling
  polled : x.now ≤ r.polled
  erred : r.polled ≤ r.erred
  answer : r.answer =
    if x.adapter.asleep r.polled then none else some (pollStream x.adapter.stream).2
  round : round pollStream ⟨fun _ => r.polled, fun _ => r.erred⟩ 0 x.adapter =
    (y.adapter, r.returned)
  calling : y.calling = r.returned.isNone
  now : y.now = r.erred

/-- The adapter that `fixed_delay` creates. -/
def created (delay now : Nat) (stream : σ) : Polling σ :=
  ⟨fixedDelay delay now stream, false, now⟩

end LogAndSleep

/-! ## The last answer -/

/-- Was the last answer an error, if it was one before? -/
def failedAfter (failed : Bool) : Option (Next (Except ε α)) → Bool
  | some (.ready (some (.error _))) => true
  | some (.ready _) => false
  | _ => failed

/-- The last answer of the inner stream that was not pending was an error. -/
def lastFailed (past : List (Round α ε)) : Bool :=
  past.foldl (fun failed r => failedAfter failed r.answer) false

theorem lastFailed_append (past : List (Round α ε)) (r : Round α ε) :
    lastFailed (past ++ [r]) = failedAfter (lastFailed past) r.answer := by
  simp [lastFailed]

/-- The timer runs until this deadline: it was started by an error that followed another
one, and the inner stream has not been polled since. -/
def ArmedBy (delay : Nat) (past : List (Round α ε)) (deadline : Nat) : Prop :=
  ∃ before r skipped, past = before ++ r :: skipped ∧ r.Errs ∧ lastFailed before = true ∧
    (∀ s ∈ skipped, s.answer = none) ∧ deadline = r.erred + delay

namespace LogAndSleep

variable {pollStream : σ → σ × Next (Except ε α)} {x y z : Polling σ} {r : Round α ε}
  {delay : Nat}

/-! ## What a round does -/

section Round

variable {s s' : LogAndSleep σ}

/-- The round finds the timer running. -/
structure Waits (s : LogAndSleep σ) (r : Round α ε) (s' : LogAndSleep σ) : Prop where
  asleep : s.asleep r.polled = true
  answer : r.answer = none
  adapter : s' = s
  returned : r.returned = some .pending

/-- The round polls the inner stream. -/
structure Asks (pollStream : σ → σ × Next (Except ε α)) (s : LogAndSleep σ)
    (r : Round α ε) (s' : LogAndSleep σ) : Prop where
  awake : s.asleep r.polled = false
  answer : r.answer ≠ none
  stream : s'.stream = (pollStream s.stream).1
  delay : s'.delay = s.delay
  failed : s'.failed = failedAfter s.failed r.answer
  /-- Only an error that follows another one starts the timer. -/
  sleeping : s'.sleeping = true → r.Errs ∧ s.failed = true
  /-- The call goes on after an error, and only then. -/
  returned : r.returned = none ↔ r.Errs
  /-- The timer has been started if it is due. -/
  errs : r.Errs → s'.sleeping = s.failed ∧
    (s.failed = true → s'.sleep = r.erred + s.delay)

/-- A round that polls the inner stream and returns has stopped the timer. -/
theorem asks_of_returned {stream : σ} {answer : Next (Except ε α)} {returned : Next α}
    (hawake : s.asleep r.polled = false) (hpoll : pollStream s.stream = (stream, answer))
    (hanswer : r.answer = some (pollStream s.stream).2)
    (hreturns : ∀ e, answer ≠ .ready (some (.error e)))
    (hround : ({ s with
      failed := failedAfter s.failed (some answer)
      sleeping := false
      stream := stream }, some returned) = (s', r.returned)) : Asks pollStream s r s' := by
  rw [hpoll] at hanswer
  have herrs : ¬ r.Errs := by
    rintro ⟨e, he⟩
    rw [hanswer] at he
    exact hreturns e (Option.some.inj he)
  obtain ⟨rfl, hreturned⟩ := Prod.mk.inj hround
  refine ⟨hawake, by simp [hanswer], by rw [hpoll], rfl, by rw [hanswer], ?_,
    iff_of_false (by simp [← hreturned]) herrs, fun h => absurd h herrs⟩
  intro hsleeping
  cases hsleeping

/-- A round that gets an error goes on, and starts the timer if the last answer was an
error too. -/
theorem asks_of_error {stream : σ} {e : ε} (hawake : s.asleep r.polled = false)
    (hpoll : pollStream s.stream = (stream, .ready (some (.error e))))
    (hanswer : r.answer = some (pollStream s.stream).2)
    (hround : ({ s with
      failed := true
      sleeping := s.failed
      sleep := if s.failed then r.erred + s.delay else s.sleep
      stream := stream }, none) = (s', r.returned)) : Asks pollStream s r s' := by
  rw [hpoll] at hanswer
  have herrs : r.Errs := ⟨e, hanswer⟩
  obtain ⟨rfl, hreturned⟩ := Prod.mk.inj hround
  refine ⟨hawake, by simp [hanswer], by rw [hpoll], rfl, by rw [hanswer, failedAfter],
    fun hfailed => ⟨herrs, hfailed⟩, iff_of_true hreturned.symm herrs, fun _ => ⟨rfl, ?_⟩⟩
  intro hfailed
  simp only [hfailed, if_true]

/-- A round does one or the other. -/
theorem waits_or_asks
    (hround : round pollStream ⟨fun _ => r.polled, fun _ => r.erred⟩ 0 s = (s', r.returned))
    (hanswer : r.answer =
      if s.asleep r.polled then none else some (pollStream s.stream).2) :
    Waits s r s' ∨ Asks pollStream s r s' := by
  cases hasleep : s.asleep r.polled with
  | true =>
      left
      have hcond : s.sleeping = true ∧ r.polled < s.sleep := by
        simpa [asleep] using hasleep
      rw [round, if_pos hcond] at hround
      obtain ⟨hadapter, hreturned⟩ := Prod.mk.inj hround
      exact ⟨hasleep, by simpa [hasleep] using hanswer, hadapter.symm, hreturned.symm⟩
  | false =>
      right
      have hcond : ¬ (s.sleeping = true ∧ r.polled < s.sleep) := by
        simpa [asleep] using hasleep
      rw [round, if_neg hcond] at hround
      rw [hasleep, if_neg Bool.false_ne_true] at hanswer
      -- The stream ends, fails, yields an item or is pending.
      rcases hpoll : pollStream s.stream with ⟨stream, (_ | e | item) | _⟩
      · rw [hpoll] at hround
        exact asks_of_returned hasleep hpoll hanswer (by simp) hround
      · rw [hpoll] at hround
        exact asks_of_error hasleep hpoll hanswer hround
      · rw [hpoll] at hround
        exact asks_of_returned hasleep hpoll hanswer (by simp) hround
      · rw [hpoll] at hround
        exact asks_of_returned hasleep hpoll hanswer (by simp) hround

end Round

theorem Step.waits_or_asks (h : Step pollStream x r y) :
    Waits x.adapter r y.adapter ∨ Asks pollStream x.adapter r y.adapter :=
  LogAndSleep.waits_or_asks h.round h.answer

/-- A round with an answer polls the inner stream once, and the answer is the result. -/
theorem Step.polls (h : Step pollStream x r y) {answer : Next (Except ε α)}
    (hanswer : r.answer = some answer) :
    pollStream x.adapter.stream = (y.adapter.stream, answer) := by
  rcases h.waits_or_asks with hwaits | hasks
  · rw [hwaits.answer] at hanswer
    cases hanswer
  · have hpolled := h.answer
    rw [hasks.awake, if_neg Bool.false_ne_true, hanswer] at hpolled
    rw [hasks.stream, Option.some.inj hpolled]

/-- A round without an answer changes nothing. -/
theorem Step.adapter_eq (h : Step pollStream x r y) (hnone : r.answer = none) :
    y.adapter = x.adapter := by
  rcases h.waits_or_asks with hwaits | hasks
  · exact hwaits.adapter
  · exact absurd hnone hasks.answer

/-- In particular it leaves the inner stream alone. -/
theorem Step.leaves (h : Step pollStream x r y) (hnone : r.answer = none) :
    y.adapter.stream = x.adapter.stream := by
  rw [h.adapter_eq hnone]

/-- An error is an answer. -/
theorem Step.asks_of_errs (h : Step pollStream x r y) (herrs : r.Errs) :
    Asks pollStream x.adapter r y.adapter := by
  rcases h.waits_or_asks with hwaits | hasks
  · obtain ⟨e, he⟩ := herrs
    rw [hwaits.answer] at he
    cases he
  · exact hasks

/-- Some round takes place at every later time. -/
theorem exists_step (pollStream : σ → σ × Next (Except ε α)) {x : Polling σ}
    {polled erred : Nat} (hpolled : x.now ≤ polled) (herred : polled ≤ erred) :
    ∃ (r : Round α ε) (y : Polling σ),
      Step pollStream x r y ∧ r.polled = polled ∧ r.erred = erred := by
  rcases hround : LogAndSleep.round pollStream ⟨fun _ => polled, fun _ => erred⟩ 0
    x.adapter with ⟨adapter, returned⟩
  let answer := if x.adapter.asleep polled then none else some (pollStream x.adapter.stream).2
  exact ⟨⟨!x.calling, polled, erred, answer, returned⟩, ⟨adapter, returned.isNone, erred⟩,
    ⟨rfl, hpolled, herred, rfl, hround, rfl, rfl⟩, rfl, rfl⟩

/-- Every round of a call is one of these. -/
theorem exists_round (pollStream : σ → σ × Next (Except ε α)) (clocks : Clocks) (i : Nat)
    (s : LogAndSleep σ) :
    ∃ (r : Round α ε) (s' : LogAndSleep σ), round pollStream clocks i s = (s', r.returned) ∧
      r.polled = clocks.polled i ∧ r.erred = clocks.erred i ∧
      (Waits s r s' ∨ Asks pollStream s r s') := by
  rcases hround : round pollStream clocks i s with ⟨s', returned⟩
  let answer :=
    if s.asleep (clocks.polled i) then none else some (pollStream s.stream).2
  let r : Round α ε := ⟨false, clocks.polled i, clocks.erred i, answer, returned⟩
  have hcases : Waits s r s' ∨ Asks pollStream s r s' := waits_or_asks hround rfl
  exact ⟨r, s', rfl, rfl, rfl, hcases⟩

/-- A call of `poll_next` is some rounds, the last of which returns. -/
theorem run_of_pollNext {clocks : Clocks} {fuel i now : Nat} (calling : Bool)
    {s s' : LogAndSleep σ} {answer : Next α} (hnow : now ≤ clocks.polled i)
    (hpolled : ∀ i, clocks.polled i ≤ clocks.erred i)
    (herred : ∀ i, clocks.erred i ≤ clocks.polled (i + 1))
    (hpoll : pollNext pollStream clocks fuel i s = some (s', answer)) :
    ∃ rounds r finish, Run (Step pollStream) ⟨s, calling, now⟩ (rounds ++ [r])
        ⟨s', false, finish⟩ ∧
      (∀ r' ∈ rounds, r'.returned = none) ∧ r.returned = some answer ∧
      finish ≤ clocks.erred (i + fuel) := by
  have hmono : Monotone clocks.erred :=
    monotone_nat_of_le_succ fun j => (herred j).trans (hpolled (j + 1))
  induction fuel generalizing i now calling s with
  | zero => cases hpoll
  | succ fuel ih =>
      rw [pollNext] at hpoll
      rcases hround : round pollStream clocks i s with ⟨mid, returned⟩
      rw [hround] at hpoll
      let asked := if s.asleep (clocks.polled i) then none else some (pollStream s.stream).2
      have hstep : Step pollStream ⟨s, calling, now⟩
          ⟨!calling, clocks.polled i, clocks.erred i, asked, returned⟩
          ⟨mid, returned.isNone, clocks.erred i⟩ :=
        ⟨rfl, hnow, hpolled i, rfl, hround, rfl, rfl⟩
      cases returned with
      | some answer' =>
          obtain ⟨rfl, rfl⟩ := Prod.mk.inj (Option.some.inj hpoll)
          exact ⟨[], _, _, .cons hstep (.nil _), by simp, rfl, hmono (Nat.le_add_right _ _)⟩
      | none =>
          obtain ⟨rounds, r, finish, hrun, hrounds, hreturned, hfinish⟩ := ih true (herred i) hpoll
          refine ⟨_ :: rounds, r, finish, .cons hstep hrun,
            List.forall_mem_cons.mpr ⟨rfl, hrounds⟩, hreturned, ?_⟩
          rw [Nat.add_right_comm] at hfinish
          exact hfinish

/-! ## The invariant -/

/-- What holds of the adapter after some rounds. -/
structure Sound (delay : Nat) (past : List (Round α ε)) (x : Polling σ) : Prop where
  delay_eq : x.adapter.delay = delay
  failed : x.adapter.failed = lastFailed past
  armed : x.adapter.sleeping = true → ArmedBy delay past x.adapter.sleep

theorem Sound.step {past : List (Round α ε)} (hsound : Sound delay past x)
    (hstep : Step pollStream x r y) : Sound delay (past ++ [r]) y := by
  rcases hstep.waits_or_asks with hwaits | hasks
  · -- The round was skipped: nothing has changed.
    refine ⟨?_, ?_, ?_⟩
    · rw [hwaits.adapter, hsound.delay_eq]
    · rw [hwaits.adapter, hsound.failed, lastFailed_append, hwaits.answer]
      rfl
    · intro hsleeping
      rw [hwaits.adapter] at hsleeping ⊢
      obtain ⟨before, r₀, skipped, rfl, herrs, hfailed, hskipped, hdeadline⟩ :=
        hsound.armed hsleeping
      refine ⟨before, r₀, skipped ++ [r], by simp, herrs, hfailed, ?_, hdeadline⟩
      exact List.forall_mem_append.mpr ⟨hskipped, by simpa using hwaits.answer⟩
  · refine ⟨?_, ?_, ?_⟩
    · rw [hasks.delay, hsound.delay_eq]
    · rw [hasks.failed, hsound.failed, lastFailed_append]
    · intro hsleeping
      obtain ⟨herrs, hfailed⟩ := hasks.sleeping hsleeping
      refine ⟨past, r, [], rfl, herrs, ?_, by simp, ?_⟩
      · rw [← hsound.failed, hfailed]
      · rw [(hasks.errs herrs).2 hfailed, hsound.delay_eq]

theorem sound_of_run {start : Nat} {stream : σ} {past : List (Round α ε)}
    (hrun : Run (Step pollStream) (created delay start stream) past x) :
    Sound delay past x := by
  refine hrun.history (Sound delay) (fun _ _ _ _ hsound hstep => hsound.step hstep) ?_
  exact ⟨rfl, rfl, fun hsleeping => by cases hsleeping⟩

/-! ## The delay -/

/-- The clock does not go back. -/
theorem now_le_of_run {later : List (Round α ε)} (hrun : Run (Step pollStream) x later z) :
    ∀ r ∈ later, x.now ≤ r.polled := by
  induction hrun with
  | nil => simp
  | @cons x y z r later hstep _ ih =>
      intro r' hr'
      rcases List.mem_cons.mp hr' with rfl | hlater
      · exact hstep.polled
      · have hnext := ih r' hlater
        have hnow := hstep.now
        have hpolled := hstep.polled
        have herred := hstep.erred
        omega

/-- While the timer runs the inner stream is not polled. -/
theorem deadline_le_of_run {later : List (Round α ε)} {deadline : Nat}
    (hrun : Run (Step pollStream) x later z) (hsleeping : x.adapter.sleeping = true)
    (hdeadline : x.adapter.sleep = deadline) :
    ∀ r ∈ later, r.answer ≠ none → deadline ≤ r.polled := by
  induction hrun with
  | nil => simp
  | @cons x y z r later hstep hrest ih =>
      rcases hstep.waits_or_asks with hwaits | hasks
      · intro r' hr' hanswer
        rcases List.mem_cons.mp hr' with rfl | hlater
        · exact absurd hwaits.answer hanswer
        · refine ih ?_ ?_ r' hlater hanswer
          · rw [hwaits.adapter, hsleeping]
          · rw [hwaits.adapter, hdeadline]
      · -- The timer has run out, and the clock stands after its deadline from now on.
        have hpast : deadline ≤ r.polled := by
          have hawake := hasks.awake
          simp only [asleep, hsleeping, hdeadline, Bool.true_and, decide_eq_false_iff_not,
            Nat.not_lt] at hawake
          exact hawake
        intro r' hr' _
        rcases List.mem_cons.mp hr' with rfl | hlater
        · exact hpast
        · have hnext := now_le_of_run hrest r' hlater
          have hnow := hstep.now
          have herred := hstep.erred
          omega

/-- After an error that follows another one the inner stream is not polled before the
delay is over; after any other error it is polled next, in the same call and at whatever
time; and a round that finds the timer running comes before the end of a delay.  A round
with an answer is one poll of the inner stream, and one without an answer leaves it alone. -/
theorem delays_consecutive_errors {start : Nat} {stream : σ} {past : List (Round α ε)}
    (hrun : Run (Step pollStream) (created delay start stream) past x)
    (hstep : Step pollStream x r y) :
    (r.Errs → lastFailed past = true → ∀ later z, Run (Step pollStream) y later z →
      ∀ r' ∈ later, r'.answer ≠ none → r.erred + delay ≤ r'.polled) ∧
    (r.Errs → lastFailed past = false → r.returned = none ∧
      (∀ polled erred, r.erred ≤ polled → polled ≤ erred →
        ∃ r' z, Step pollStream y r' z ∧ r'.polled = polled ∧ r'.erred = erred) ∧
      ∀ r' z, Step pollStream y r' z → r'.opens = false ∧ r'.answer ≠ none) ∧
    (r.answer = none → ∃ deadline, ArmedBy delay past deadline ∧ r.polled < deadline) ∧
    (∀ answer, r.answer = some answer →
      pollStream x.adapter.stream = (y.adapter.stream, answer)) ∧
    (r.answer = none → y.adapter.stream = x.adapter.stream) := by
  have hsound := sound_of_run hrun
  refine ⟨?_, ?_, ?_, fun answer => hstep.polls, hstep.leaves⟩
  · intro herrs hfailed later z hlater
    rw [← hsound.failed] at hfailed
    obtain ⟨hsleeping, hdeadline⟩ := (hstep.asks_of_errs herrs).errs herrs
    refine deadline_le_of_run hlater (hsleeping.trans hfailed) ?_
    rw [hdeadline hfailed, hsound.delay_eq]
  · intro herrs hfailed
    rw [← hsound.failed] at hfailed
    have hasks := hstep.asks_of_errs herrs
    obtain ⟨hsleeping, -⟩ := hasks.errs herrs
    have hreturned := hasks.returned.mpr herrs
    refine ⟨hreturned, ?_, ?_⟩
    · intro polled erred hpolled herred
      exact exists_step pollStream (hstep.now ▸ hpolled) herred
    · intro r' z hnext
      have hawake : y.adapter.asleep r'.polled = false := by
        simp [asleep, hsleeping, hfailed]
      refine ⟨?_, ?_⟩
      · rw [hnext.opens, hstep.calling, hreturned]
        rfl
      · rw [hnext.answer, hawake]
        simp
  · intro hnone
    rcases hstep.waits_or_asks with hwaits | hasks
    · have hasleep := hwaits.asleep
      simp only [asleep, Bool.and_eq_true, decide_eq_true_eq] at hasleep
      exact ⟨_, hsound.armed hasleep.1, hasleep.2⟩
    · exact absurd hnone hasks.answer

/-- A stream that always fails. -/
def failing (_ : Unit) : Unit × Next (Except Unit Unit) := ((), .ready (some (.error ())))

/-- A round in which it is polled, at the start of the clock. -/
def failingRound (opens : Bool) : Round Unit Unit :=
  ⟨opens, 0, 0, some (.ready (some (.error ()))), none⟩

/-- Its second error is followed by a delay of three. -/
theorem second_error_delayed :
    lastFailed [failingRound true] = true ∧
      ∀ later z, Run (Step failing) ⟨⟨3, true, 3, true, ()⟩, true, 0⟩ later z →
        ∀ r' ∈ later, r'.answer ≠ none → 3 ≤ r'.polled := by
  have hfirst : Step failing (created 3 0 ()) (failingRound true)
      ⟨⟨3, true, 0, false, ()⟩, true, 0⟩ :=
    ⟨rfl, Nat.le_refl 0, Nat.le_refl 0, rfl, rfl, rfl, rfl⟩
  have hsecond : Step failing ⟨⟨3, true, 0, false, ()⟩, true, 0⟩ (failingRound false)
      ⟨⟨3, true, 3, true, ()⟩, true, 0⟩ :=
    ⟨rfl, Nat.le_refl 0, Nat.le_refl 0, rfl, rfl, rfl, rfl⟩
  exact ⟨rfl, (delays_consecutive_errors (.cons hfirst (.nil _)) hsecond).1 ⟨(), rfl⟩ rfl⟩

/-! ## Calls -/

/-- The readings of a call are taken one after the other, from a time on. -/
structure Clocks.From (clocks : Clocks) (now : Nat) : Prop where
  start : now ≤ clocks.polled 0
  polled : ∀ i, clocks.polled i ≤ clocks.erred i
  erred : ∀ i, clocks.erred i ≤ clocks.polled (i + 1)

/-- A call of `poll_next`: its clock readings, a bound on its rounds, and what it
returns. -/
structure Call (α : Type v) where
  clocks : Clocks
  fuel : Nat
  answer : Next α

/-- The call is made and returns, and the next one may be made when it has. -/
structure Call.Step (pollStream : σ → σ × Next (Except ε α)) (x : Polling σ) (call : Call α)
    (y : Polling σ) : Prop where
  readings : Clocks.From call.clocks x.now
  poll : pollNext pollStream call.clocks call.fuel 0 x.adapter = some (y.adapter, call.answer)
  calling : y.calling = false
  now : call.clocks.erred call.fuel ≤ y.now

/-- A call that finds the timer running returns at once. -/
theorem pollNext_of_asleep {clocks : Clocks} {s : LogAndSleep σ} {i : Nat}
    (hasleep : s.asleep (clocks.polled i) = true) (fuel : Nat) :
    pollNext pollStream clocks (fuel + 1) i s = some (s, .pending) := by
  have hcond : s.sleeping = true ∧ clocks.polled i < s.sleep := by
    simpa [asleep] using hasleep
  rw [pollNext, round, if_pos hcond]

/-- Calls, one after the other, are a run of rounds, and every call is what its last round
returns. -/
theorem run_of_calls {start : Nat} {stream : σ} {calls : List (Call α)}
    (hcalls : Run (Call.Step pollStream) (created delay start stream) calls x) :
    ∃ rounds finish, Run (Step pollStream) (created delay start stream) rounds
        ⟨x.adapter, false, finish⟩ ∧
      finish ≤ x.now ∧ rounds.filterMap Round.returned = calls.map Call.answer := by
  refine hcalls.history (fun calls x => ∃ rounds finish,
    Run (Step pollStream) (created delay start stream) rounds ⟨x.adapter, false, finish⟩ ∧
      finish ≤ x.now ∧ rounds.filterMap Round.returned = calls.map Call.answer) ?_ ?_
  · rintro past x call y ⟨rounds, finish, hrun, hfinish, hreturned⟩ hcall
    obtain ⟨next, r, finish', hnext, hnone, hlast, hfinish'⟩ :=
      run_of_pollNext false (Nat.le_trans hfinish hcall.readings.start)
        hcall.readings.polled hcall.readings.erred hcall.poll
    rw [Nat.zero_add] at hfinish'
    refine ⟨rounds ++ (next ++ [r]), finish', hrun.append hnext,
      Nat.le_trans hfinish' hcall.now, ?_⟩
    have hsilent : next.filterMap Round.returned = [] := List.filterMap_eq_nil_iff.mpr hnone
    simp [hreturned, hsilent, hlast]
  · exact ⟨[], start, .nil _, Nat.le_refl _, rfl⟩

/-- Rounds without an answer change nothing. -/
theorem adapter_of_skipped {skipped : List (Round α ε)}
    (hrun : Run (Step pollStream) y skipped z) (hskipped : ∀ r ∈ skipped, r.answer = none) :
    z.adapter = y.adapter := by
  induction hrun with
  | nil => rfl
  | cons hstep _ ih =>
      obtain ⟨hnone, hrest⟩ := List.forall_mem_cons.mp hskipped
      rw [ih hrest, hstep.adapter_eq hnone]

/-- The timer that a second error starts runs until the stream is polled again. -/
theorem sleeping_of_armedBy {start deadline : Nat} {stream : σ} {past : List (Round α ε)}
    (hrun : Run (Step pollStream) (created delay start stream) past x)
    (harmed : ArmedBy delay past deadline) :
    x.adapter.sleeping = true ∧ x.adapter.sleep = deadline := by
  obtain ⟨before, r, skipped, rfl, herrs, hfailed, hskipped, rfl⟩ := harmed
  obtain ⟨mid, hbefore, hrest⟩ := hrun.split
  cases hrest with
  | cons hstep hafter =>
      have hsound := sound_of_run hbefore
      rw [← hsound.failed] at hfailed
      obtain ⟨hsleeping, hsleep⟩ := (hstep.asks_of_errs herrs).errs herrs
      rw [adapter_of_skipped hafter hskipped, hsleeping, hsleep hfailed, hsound.delay_eq]
      exact ⟨hfailed, rfl⟩

/-- A call that begins while a delay lasts is pending, and leaves the adapter as it is, and
every other call begins with a poll of the inner stream. -/
theorem calls_wait_for_delay {start : Nat} {stream : σ} {calls : List (Call α)}
    (hcalls : Run (Call.Step pollStream) (created delay start stream) calls x) :
    ∃ rounds finish, Run (Step pollStream) (created delay start stream) rounds
        ⟨x.adapter, false, finish⟩ ∧
      rounds.filterMap Round.returned = calls.map Call.answer ∧
      ∀ clocks : Clocks,
        ((∃ deadline, ArmedBy delay rounds deadline ∧ clocks.polled 0 < deadline) →
          ∀ fuel, pollNext pollStream clocks (fuel + 1) 0 x.adapter =
            some (x.adapter, .pending)) ∧
        ((∀ deadline, ArmedBy delay rounds deadline → deadline ≤ clocks.polled 0) →
          (round pollStream clocks 0 x.adapter).1.stream =
            (pollStream x.adapter.stream).1) := by
  obtain ⟨rounds, finish, hrun, -, hreturned⟩ := run_of_calls hcalls
  refine ⟨rounds, finish, hrun, hreturned, fun clocks => ⟨?_, ?_⟩⟩
  · rintro ⟨deadline, harmed, hearly⟩ fuel
    have hruns := sleeping_of_armedBy hrun harmed
    obtain ⟨hsleeping, hsleep⟩ : x.adapter.sleeping = true ∧ x.adapter.sleep = deadline := hruns
    refine pollNext_of_asleep ?_ fuel
    simp [asleep, hsleeping, hsleep, hearly]
  · intro hover
    obtain ⟨r, s', hround, hpolled, -, hcases⟩ := exists_round pollStream clocks 0 x.adapter
    rw [hround]
    rcases hcases with hwaits | hasks
    · -- The timer runs only until the deadline of a delay, which has come.
      have hasleep := hwaits.asleep
      simp only [asleep, Bool.and_eq_true, decide_eq_true_eq] at hasleep
      have hcome : x.adapter.sleep ≤ clocks.polled 0 :=
        hover _ ((sound_of_run hrun).armed hasleep.1)
      omega
    · exact hasks.stream

/-! ## The rounds of one call -/

/-- A stream together with the number of its polls. -/
def counted (pollStream : σ → σ × Next (Except ε α)) (x : σ × Nat) :
    (σ × Nat) × Next (Except ε α) :=
  (((pollStream x.1).1, x.2 + 1), (pollStream x.1).2)

section Count

variable {clocks : Clocks} {s : LogAndSleep (σ × Nat)}

/-- After an error the inner stream is polled at most once: a second one starts the
timer. -/
theorem pollNext_of_failed (hfailed : s.failed = true)
    (hclocks : ∀ i j, i < j → clocks.polled j < clocks.erred i + s.delay) (fuel i : Nat) :
    ∃ s' answer, pollNext (counted pollStream) clocks (fuel + 2) i s = some (s', answer) ∧
      s'.stream.2 ≤ s.stream.2 + 1 := by
  obtain ⟨r, s', hround, -, herred, hcases⟩ := exists_round (counted pollStream) clocks i s
  rw [pollNext, hround]
  rcases hcases with hwaits | hasks
  · rw [hwaits.returned, hwaits.adapter]
    exact ⟨s, .pending, rfl, Nat.le_succ _⟩
  · have hstream : s'.stream.2 = s.stream.2 + 1 := congrArg Prod.snd hasks.stream
    cases hreturned : r.returned with
    | some answer => exact ⟨s', answer, rfl, le_of_eq hstream⟩
    | none =>
        obtain ⟨hsleeping, hsleep⟩ := hasks.errs (hasks.returned.mp hreturned)
        have hasleep : s'.asleep (clocks.polled (i + 1)) = true := by
          have hdeadline := hclocks i (i + 1) (Nat.lt_succ_self i)
          simp [asleep, hsleeping, hfailed, hsleep hfailed, herred, hdeadline]
        exact ⟨s', .pending, pollNext_of_asleep hasleep fuel, le_of_eq hstream⟩

/-- A first error is followed by one more poll of the inner stream at most. -/
theorem pollNext_returns
    (hclocks : ∀ i j, i < j → clocks.polled j < clocks.erred i + s.delay) (fuel i : Nat) :
    ∃ s' answer, pollNext (counted pollStream) clocks (fuel + 3) i s = some (s', answer) ∧
      s'.stream.2 ≤ s.stream.2 + 2 := by
  obtain ⟨r, s', hround, -, -, hcases⟩ := exists_round (counted pollStream) clocks i s
  rw [pollNext, hround]
  rcases hcases with hwaits | hasks
  · rw [hwaits.returned, hwaits.adapter]
    exact ⟨s, .pending, rfl, Nat.le_add_right _ _⟩
  · have hstream : s'.stream.2 = s.stream.2 + 1 := congrArg Prod.snd hasks.stream
    cases hreturned : r.returned with
    | some answer => exact ⟨s', answer, rfl, by omega⟩
    | none =>
        obtain ⟨e, he⟩ := hasks.returned.mp hreturned
        have hfailed : s'.failed = true := by
          rw [hasks.failed, he, failedAfter]
        obtain ⟨s'', answer, hpoll, hcount⟩ : ∃ s'' answer,
            pollNext (counted pollStream) clocks (fuel + 2) (i + 1) s' = some (s'', answer) ∧
              s''.stream.2 ≤ s'.stream.2 + 1 :=
          pollNext_of_failed hfailed (hasks.delay ▸ hclocks) fuel (i + 1)
        exact ⟨s'', answer, hpoll, by omega⟩

end Count

/-- From every state that can be reached, a call of `poll_next` returns after at most two
polls of the inner stream, and after one if the last answer was an error, as long as the
clock does not advance by the delay during the call. -/
theorem poll_next_bounded {start polls : Nat} {stream : σ} {past : List (Round α ε)}
    {x : Polling (σ × Nat)} {clocks : Clocks}
    (hrun : Run (Step (counted pollStream)) (created delay start (stream, polls)) past x)
    (hclocks : ∀ i j, i < j → clocks.polled j < clocks.erred i + delay) (fuel : Nat) :
    ∃ s' answer, pollNext (counted pollStream) clocks (fuel + 3) 0 x.adapter =
        some (s', answer) ∧
      s'.stream.2 ≤ x.adapter.stream.2 + 2 ∧
      (lastFailed past = true → s'.stream.2 ≤ x.adapter.stream.2 + 1) := by
  have hsound := sound_of_run hrun
  rw [← hsound.delay_eq] at hclocks
  cases hfailed : x.adapter.failed with
  | true =>
      obtain ⟨s', answer, hpoll, hcount⟩ := pollNext_of_failed hfailed hclocks (fuel + 1) 0
      exact ⟨s', answer, hpoll, by omega, fun _ => hcount⟩
  | false =>
      obtain ⟨s', answer, hpoll, hcount⟩ := pollNext_returns hclocks fuel 0
      refine ⟨s', answer, hpoll, hcount, fun hlast => ?_⟩
      rw [← hsound.failed, hfailed] at hlast
      cases hlast

/-- A call on a stream that always fails polls it twice. -/
theorem failing_polled_twice :
    ∃ s' answer, pollNext (counted failing) ⟨fun _ => 0, fun _ => 0⟩ 3 0
        (fixedDelay 3 0 ((), 0)) = some (s', answer) ∧ s'.stream.2 ≤ 2 := by
  have hclocks : ∀ i j, i < j → (⟨fun _ => 0, fun _ => 0⟩ : Clocks).polled j <
      (⟨fun _ => 0, fun _ => 0⟩ : Clocks).erred i + 3 := fun _ _ _ => Nat.zero_lt_succ 2
  obtain ⟨s', answer, hpoll, hcount, -⟩ := poll_next_bounded
    (.nil (created 3 0 ((), 0)) : Run (Step (counted failing)) _ [] _) hclocks 0
  exact ⟨s', answer, hpoll, hcount⟩

end LogAndSleep

end Stream
end Kubert
