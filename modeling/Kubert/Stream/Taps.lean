import Kubert.Stream.Watch

/-!
# Streams that are tapped

`Runtime::watch_inner` looks at the results of a watcher before they enter the adapters:
diagnostics inspect them, metrics count them and, for `Runtime::cache`, a reflector keeps
a store of them.  All of these are a tap: something is kept beside the stream, and every
result changes it on its way.

A tap is transparent: with it, `LogAndSleep` and the whole stack answer as they do without
it (`pollNext_tapped`), and what is kept has seen the results that were taken from the
stream, in order.
-/

namespace Kubert
namespace Stream

open Foundation

universe u v w

variable {α ε : Type v} {η : Type w} {δ : Type u}

/-- A stream with a tap: how often it was polled, and what the tap keeps. -/
structure Tapped (δ : Type u) where
  position : Nat
  kept : δ

/-- The result in an answer. -/
def Next.result : Next (Except ε α) → Option (Except ε α)
  | .ready (some result) => some result
  | _ => none

/-- The results among so many answers of a script, from a position on, each with its
position. -/
def resultsFrom (script : Nat → Next (Except ε α)) (n k : Nat) : List (Nat × Except ε α) :=
  (List.range' n k).filterMap fun i => (script i).result.map fun result => (i, result)

/-- What the tap keeps after some results. -/
def recordAll (record : Nat → Except ε α → δ → δ) (results : List (Nat × Except ε α))
    (kept : δ) : δ :=
  results.foldl (fun kept result => record result.1 result.2 kept) kept

/-- The tapped stream is polled. -/
def tapped (script : Nat → Next (Except ε α)) (record : Nat → Except ε α → δ → δ)
    (s : Tapped δ) : Tapped δ × Next (Except ε α) :=
  (⟨s.position + 1, recordAll record (resultsFrom script s.position 1) s.kept⟩,
    script s.position)

variable {script : Nat → Next (Except ε α)} {record : Nat → Except ε α → δ → δ}

theorem resultsFrom_add (n k l : Nat) :
    resultsFrom script n (k + l) = resultsFrom script n k ++ resultsFrom script (n + k) l := by
  unfold resultsFrom
  rw [← List.filterMap_append, List.range'_append_1]

theorem recordAll_append (first second : List (Nat × Except ε α)) (kept : δ) :
    recordAll record (first ++ second) kept =
      recordAll record second (recordAll record first kept) :=
  List.foldl_append

/-- The items of a script are its results without the errors. -/
theorem okEvents_eq_results (n : Nat) :
    okEvents script n = (resultsFrom script 0 n).filterMap fun result => result.2.toOption := by
  unfold okEvents resultsFrom
  rw [List.filterMap_filterMap, List.range_eq_range']
  congr 1
  funext i
  rcases script i with (_ | _ | _) | _ <;> rfl

/-! ## A tap is transparent -/

namespace LogAndSleep

/-- Put the tap beside the stream. -/
def attach (s : LogAndSleep Nat) (kept : δ) : LogAndSleep (Tapped δ) where
  delay := s.delay
  failed := s.failed
  sleep := s.sleep
  sleeping := s.sleeping
  stream := ⟨s.stream, kept⟩

theorem round_tapped (clocks : Clocks) (i : Nat) (s : LogAndSleep Nat) (kept : δ) :
    round (tapped script record) clocks i (s.attach kept) =
      ((round (scripted script) clocks i s).1.attach
        (recordAll record (resultsFrom script s.stream
          ((round (scripted script) clocks i s).1.stream - s.stream)) kept),
        (round (scripted script) clocks i s).2) := by
  by_cases hsleep : s.sleeping ∧ clocks.polled i < s.sleep
  · have hsleep' : (s.attach kept).sleeping ∧ clocks.polled i < (s.attach kept).sleep := hsleep
    rw [round, if_pos hsleep', round, if_pos hsleep, Nat.sub_self]
    rfl
  · have hsleep' : ¬((s.attach kept).sleeping ∧ clocks.polled i < (s.attach kept).sleep) :=
      hsleep
    rw [round, if_neg hsleep', round, if_neg hsleep]
    have hone : s.stream + 1 - s.stream = 1 := Nat.add_sub_cancel_left s.stream 1
    rcases hanswer : script s.stream with (_ | err | item) | _
    · simp only [tapped, scripted, attach, hanswer, hone]
    · simp only [tapped, scripted, attach, hanswer, hone]
      rfl
    · simp only [tapped, scripted, attach, hanswer, hone]
    · simp only [tapped, scripted, attach, hanswer, hone]

theorem le_of_pollNext {clocks : Clocks} {fuel i : Nat} {s : LogAndSleep Nat}
    {called : LogAndSleep Nat × Next α}
    (hpoll : pollNext (scripted script) clocks fuel i s = some called) :
    s.stream ≤ called.1.stream :=
  (answers_of_pollNext hpoll).le

/-- With the tap, `LogAndSleep` does what it does without it. -/
theorem pollNext_tapped (clocks : Clocks) (fuel i : Nat) (s : LogAndSleep Nat) (kept : δ) :
    pollNext (tapped script record) clocks fuel i (s.attach kept) =
      (pollNext (scripted script) clocks fuel i s).map fun called =>
        (called.1.attach (recordAll record
          (resultsFrom script s.stream (called.1.stream - s.stream)) kept), called.2) := by
  induction fuel generalizing i s kept with
  | zero => rfl
  | succ fuel ih =>
      rw [pollNext, pollNext, round_tapped]
      rcases hround : round (scripted script) clocks i s with ⟨mid, _ | answer⟩
      · -- An error was taken, and the loop goes on.
        have hmid : mid.stream = s.stream + 1 := by
          rcases round_cases script clocks i s with hasleep | ⟨hstream, -⟩
          · rw [hround] at hasleep
            cases hasleep
          · rw [hround] at hstream
            exact hstream
        simp only
        rw [ih]
        cases hcalled : pollNext (scripted script) clocks fuel (i + 1) mid with
        | none => rfl
        | some called =>
            have hle := le_of_pollNext hcalled
            have hsplit : called.1.stream - s.stream =
                (mid.stream - s.stream) + (called.1.stream - mid.stream) := by
              omega
            have hposition : s.stream + (mid.stream - s.stream) = mid.stream := by
              omega
            rw [Option.map_some, Option.map_some, hsplit, resultsFrom_add, recordAll_append,
              hposition]
      · rfl

end LogAndSleep

namespace Watch

/-- Put the tap beside the stream of a watch. -/
def attach (s : Watch Nat η) (kept : δ) : Watch (Tapped δ) η :=
  ⟨⟨s.inner.inner.attach kept, s.inner.handle⟩, s.completed⟩

/-- With the tap, a watch does what it does without it, and the tap has seen the results
that the watch has taken. -/
theorem pollNext_tapped (fuel : Nat) (visit : Visit) (s : Watch Nat η) (kept : δ) :
    pollNext (tapped script record) fuel visit (s.attach kept) =
      (pollNext (scripted script) fuel visit s).map fun called =>
        (called.1.attach (recordAll record
          (resultsFrom script s.position (called.1.position - s.position)) kept),
          called.2) := by
  obtain ⟨⟨inner, handle⟩, completed⟩ := s
  simp only [pollNext, CancelOnShutdown.pollNext, ReleasesOnReady.pollNext, attach]
  rw [LogAndSleep.pollNext_tapped]
  cases hcalled : LogAndSleep.pollNext (scripted script) visit.clocks fuel 0 inner with
  | none => rfl
  | some called =>
      obtain ⟨inner', answer⟩ := called
      cases answer with
      | ready next => rfl
      | pending =>
          cases completed with
          | true => rfl
          | false => cases visit.signaled <;> rfl

/-- A call of `poll_next` that returns is one with an outcome. -/
theorem exists_polls_of_pollNext {fuel : Nat} {visit : Visit} {s s' : Watch Nat η}
    {next : Next α} (hpoll : pollNext (scripted script) fuel visit s = some (s', next)) :
    ∃ outcome, Polls script s (visit, outcome) s' ∧ outcome.result = next := by
  have hinner : ∃ called,
      LogAndSleep.pollNext (scripted script) visit.clocks fuel 0 s.inner.inner =
        some called := by
    unfold pollNext CancelOnShutdown.pollNext at hpoll
    obtain ⟨wrapped, hwrapped, -⟩ := Option.bind_eq_some_iff.mp hpoll
    obtain ⟨called, hcalled, -⟩ := Option.map_eq_some_iff.mp hwrapped
    exact ⟨called, hcalled⟩
  obtain ⟨called, hcalled⟩ := hinner
  refine ⟨⟨called.2, next, if s'.inner.handle.isNone then s.inner.handle else none⟩, ⟨fuel, ?_⟩,
    rfl⟩
  change poll script fuel s visit = _
  rw [poll, hcalled, Option.bind_some, hpoll]
  rfl

end Watch
end Stream
end Kubert
