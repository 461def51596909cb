import Kubert.Foundation.Poll

/-!
# The adapters around a watch

`Runtime::watch` wraps the stream of a watcher three times: `LogAndSleep` takes its
errors out, `ReleasesOnReady` gives an initialization handle back, and
`CancelOnShutdown` ends it.  Each adapter is a state and a function that polls it,
over any inner stream.

The loop of `LogAndSleep` need not end, and is given fuel: `none` is a call that has
not returned yet.  It reads the clock in every round, so that a call comes with the
clock readings of its rounds.  A `tokio` timer is ready when its deadline has come.
-/

namespace Kubert
namespace Stream

open Foundation

universe u v w

variable {σ : Type u} {α ε : Type v} {η : Type w}

/-- The answer of a stream: pending, an item, or the end. -/
abbrev Next (α : Type v) := Poll (Option α)

/-! ## `LogAndSleep` -/

/-- The clock readings of one call: in each round, when the timer is polled and when
an error is handled. -/
structure Clocks where
  polled : Nat → Nat
  erred : Nat → Nat

/-- `LogAndSleep`. -/
structure LogAndSleep (σ : Type u) where
  delay : Nat
  failed : Bool
  sleep : Nat
  sleeping : Bool
  stream : σ

namespace LogAndSleep

/-- `fixed_delay`. -/
def fixedDelay (delay now : Nat) (stream : σ) : LogAndSleep σ :=
  ⟨delay, false, now, false, stream⟩

/-- One round of the loop of `poll_next`, which returns or goes round again. -/
def round (pollStream : σ → σ × Next (Except ε α)) (clocks : Clocks) (i : Nat)
    (s : LogAndSleep σ) : LogAndSleep σ × Option (Next α) :=
  if s.sleeping ∧ clocks.polled i < s.sleep then (s, some .pending)
  else match pollStream s.stream with
    | (stream, .pending) => ({ s with sleeping := false, stream := stream }, some .pending)
    | (stream, .ready none) =>
        ({ s with sleeping := false, failed := false, stream := stream },
          some (.ready none))
    | (stream, .ready (some (.ok item))) =>
        ({ s with sleeping := false, failed := false, stream := stream },
          some (.ready (some item)))
    | (stream, .ready (some (.error _))) =>
        -- The timer is armed only by an error that follows another one.
        ({ s with
            failed := true
            sleeping := s.failed
            sleep := if s.failed then clocks.erred i + s.delay else s.sleep
            stream := stream }, none)

/-- `poll_next`, from the given round on. -/
def pollNext (pollStream : σ → σ × Next (Except ε α)) (clocks : Clocks) :
    (fuel : Nat) → (i : Nat) → LogAndSleep σ → Option (LogAndSleep σ × Next α)
  | 0, _, _ => none
  | fuel + 1, i, s =>
      match round pollStream clocks i s with
      | (s', some answer) => some (s', answer)
      | (s', none) => pollNext pollStream clocks fuel (i + 1) s'

end LogAndSleep

/-! ## `ReleasesOnReady` -/

/-- `ReleasesOnReady`, with the handle that it has not dropped yet. -/
structure ReleasesOnReady (σ : Type u) (η : Type w) where
  inner : σ
  handle : Option η

/-- `poll_next` of `ReleasesOnReady`. -/
def ReleasesOnReady.pollNext (pollInner : σ → Option (σ × Next α))
    (s : ReleasesOnReady σ η) : Option (ReleasesOnReady σ η × Next α) :=
  (pollInner s.inner).map fun
    | (inner, .pending) => ({ s with inner := inner }, .pending)
    | (inner, .ready next) => (⟨inner, none⟩, .ready next)

/-- `poll` of `ReleasesOnReady`, around a future. -/
def ReleasesOnReady.poll (pollInner : σ → σ × Poll α) (s : ReleasesOnReady σ η) :
    ReleasesOnReady σ η × Poll α :=
  match pollInner s.inner with
  | (inner, .pending) => ({ s with inner := inner }, .pending)
  | (inner, .ready out) => (⟨inner, none⟩, .ready out)

/-! ## `CancelOnShutdown` -/

/-- `CancelOnShutdown`, and whether its future for the shutdown has completed. -/
structure CancelOnShutdown (σ : Type u) where
  inner : σ
  completed : Bool

/-- `poll_next` of `CancelOnShutdown`.  A future must not be polled again when it has
completed. -/
def CancelOnShutdown.pollNext (pollInner : σ → Option (σ × Next α)) (signaled : Bool)
    (s : CancelOnShutdown σ) : Option (CancelOnShutdown σ × Next α) :=
  (pollInner s.inner).bind fun
    | (inner, .ready next) => some ({ s with inner := inner }, .ready next)
    | (inner, .pending) =>
        if s.completed then none
        else if signaled then some (⟨inner, true⟩, .ready none)
        else some ({ s with inner := inner }, .pending)

/-- `poll` of `CancelOnShutdown`, around a future. -/
def CancelOnShutdown.poll (pollInner : σ → σ × Poll Unit) (signaled : Bool)
    (s : CancelOnShutdown σ) : Option (CancelOnShutdown σ × Poll Unit) :=
  match pollInner s.inner with
  | (inner, .ready ()) => some ({ s with inner := inner }, .ready ())
  | (inner, .pending) =>
      if s.completed then none
      else if signaled then some (⟨inner, true⟩, .ready ())
      else some ({ s with inner := inner }, .pending)

/-! ## `Runtime::watch` -/

/-- The stream that `Runtime::watch` returns. -/
abbrev Watch (σ : Type u) (η : Type w) :=
  CancelOnShutdown (ReleasesOnReady (LogAndSleep σ) η)

namespace Watch

/-- `Runtime::watch`, around the stream of a watcher. -/
def new (delay now : Nat) (handle : η) (stream : σ) : Watch σ η :=
  ⟨⟨LogAndSleep.fixedDelay delay now stream, some handle⟩, false⟩

/-- A call of `poll_next`: the clock readings, and whether the shutdown is signaled
when it is asked for. -/
structure Visit where
  clocks : Clocks
  signaled : Bool

/-- `poll_next` of the whole stack. -/
def pollNext (pollStream : σ → σ × Next (Except ε α)) (fuel : Nat) (visit : Visit)
    (s : Watch σ η) : Option (Watch σ η × Next α) :=
  CancelOnShutdown.pollNext
    (ReleasesOnReady.pollNext (LogAndSleep.pollNext pollStream visit.clocks fuel 0))
    visit.signaled s

end Watch
end Stream
end Kubert
