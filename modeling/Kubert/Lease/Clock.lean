import Mathlib.Data.Int.Basic
import Mathlib.Tactic.NormNum
import Mathlib.Order.Basic

/-!
# Durations, instants and their limits

The lease code mixes three notions of time:

* `Duration` is `std::time::Duration`, a `u64` number of seconds and fewer than
  `10^9` nanoseconds, and is what callers configure;
* `TimeDelta` is `chrono::Duration`, signed, at most `i64::MAX` milliseconds in
  either direction;
* `DateTime` is `chrono::DateTime<Utc>`, about 262 000 years around the epoch.

All of them are counted in nanoseconds here, and each carries its own limits,
so that a value outside the source type's range cannot be built.  The operators
`+` and `-` on dates panic when they leave the range; they are modelled by
`checkedAdd` and `checkedSub`, whose `none` is that panic.
-/

namespace Kubert
namespace Lease

/-- Nanoseconds in a second. -/
def nanosPerSec : Nat := 1000000000

/-- `std::time::Duration`. -/
structure Duration where
  secs : UInt64
  subsecNanos : Nat
  subsecNanos_lt : subsecNanos < 1000000000
deriving DecidableEq, Repr

namespace Duration

/-- `Duration::from_secs`. -/
def fromSecs (secs : UInt64) : Duration := ⟨secs, 0, by decide⟩

/-- `Duration::from_millis`. -/
def fromMillis (millis : UInt64) : Duration where
  secs := millis / 1000
  subsecNanos := (millis % 1000).toNat * 1000000
  subsecNanos_lt := by
    have hlt : (millis % 1000).toNat < 1000 := by
      rw [UInt64.toNat_mod]
      exact Nat.mod_lt _ (by decide)
    omega

/-- The length in nanoseconds. -/
def toNanos (d : Duration) : Nat := d.secs.toNat * nanosPerSec + d.subsecNanos

/-- `Duration::ZERO`. -/
def zero : Duration := fromSecs 0

/-- The duration has no sub-second part. -/
def WholeSeconds (d : Duration) : Prop := d.subsecNanos = 0

end Duration

/-- The largest `chrono::Duration`, `i64::MAX` milliseconds, in nanoseconds. -/
def maxDeltaNanos : Int := 9223372036854775807000000

/-- `chrono::Duration`, in nanoseconds. -/
structure TimeDelta where
  nanos : Int
  lower : -9223372036854775807000000 ≤ nanos
  upper : nanos ≤ 9223372036854775807000000
deriving DecidableEq, Repr

namespace TimeDelta

/-- `chrono::Duration::MAX`. -/
def max : TimeDelta := ⟨maxDeltaNanos, by decide, by decide⟩

/-- `chrono::Duration::zero()`. -/
def zero : TimeDelta := ⟨0, by decide, by decide⟩

/-- `chrono::Duration::from_std`: fails exactly beyond `MAX`. -/
def fromStd (d : Duration) : Option TimeDelta :=
  if h : (d.toNanos : Int) ≤ 9223372036854775807000000 then
    some ⟨d.toNanos, by omega, h⟩
  else
    none

/-- `num_seconds`: the whole seconds, rounded towards zero. -/
def numSeconds (d : TimeDelta) : Int := d.nanos.tdiv nanosPerSec

/-- `chrono::Duration::seconds` on an `i32`, which is always in range. -/
def seconds (n : Int32) : TimeDelta where
  nanos := n.toInt * 1000000000
  lower := by have := n.le_toInt; omega
  upper := by have := n.toInt_lt; omega

@[simp] theorem seconds_nanos (n : Int32) :
    (seconds n).nanos = n.toInt * 1000000000 := rfl

/-- A converted duration keeps its length. -/
theorem fromStd_nanos {d : Duration} {delta : TimeDelta}
    (h : fromStd d = some delta) : delta.nanos = d.toNanos := by
  unfold fromStd at h
  split at h
  · obtain rfl := Option.some.inj h
    rfl
  · cases h

theorem fromStd_nonneg {d : Duration} {delta : TimeDelta} (h : fromStd d = some delta) :
    0 ≤ delta.nanos := by
  rw [fromStd_nanos h]
  exact Int.natCast_nonneg _

end TimeDelta

/-- `chrono::DateTime<Utc>`, in nanoseconds since the epoch, between
`MIN_UTC` and `MAX_UTC`. -/
structure DateTime where
  nanos : Int
  lower : -8334601228800000000000 ≤ nanos
  upper : nanos ≤ 8210266876799999999999
deriving DecidableEq, Repr

namespace DateTime

instance : LE DateTime := ⟨fun t u => t.nanos ≤ u.nanos⟩

instance : LT DateTime := ⟨fun t u => t.nanos < u.nanos⟩

instance (t u : DateTime) : Decidable (t ≤ u) :=
  inferInstanceAs (Decidable (t.nanos ≤ u.nanos))

instance (t u : DateTime) : Decidable (t < u) :=
  inferInstanceAs (Decidable (t.nanos < u.nanos))

theorem le_def (t u : DateTime) : t ≤ u ↔ t.nanos ≤ u.nanos := Iff.rfl

protected theorem le_refl (t : DateTime) : t ≤ t := Int.le_refl t.nanos

theorem lt_def (t u : DateTime) : t < u ↔ t.nanos < u.nanos := Iff.rfl

/-- `DateTime + Duration`; `none` is the panic on leaving the range. -/
def checkedAdd (t : DateTime) (d : TimeDelta) : Option DateTime :=
  if h : -8334601228800000000000 ≤ t.nanos + d.nanos ∧
      t.nanos + d.nanos ≤ 8210266876799999999999 then
    some ⟨t.nanos + d.nanos, h.1, h.2⟩
  else
    none

/-- `DateTime - Duration`; `none` is the panic on leaving the range. -/
def checkedSub (t : DateTime) (d : TimeDelta) : Option DateTime :=
  if h : -8334601228800000000000 ≤ t.nanos - d.nanos ∧
      t.nanos - d.nanos ≤ 8210266876799999999999 then
    some ⟨t.nanos - d.nanos, h.1, h.2⟩
  else
    none

theorem checkedAdd_nanos {t u : DateTime} {d : TimeDelta}
    (h : t.checkedAdd d = some u) : u.nanos = t.nanos + d.nanos := by
  unfold checkedAdd at h
  split at h
  · obtain rfl := Option.some.inj h
    rfl
  · cases h

theorem eq_of_nanos {t u : DateTime} (h : t.nanos = u.nanos) : t = u := by
  cases t
  cases u
  cases h
  rfl

/-- A sum that is an instant is computed without a panic. -/
theorem checkedAdd_eq_some {t u : DateTime} {d : TimeDelta}
    (h : u.nanos = t.nanos + d.nanos) : t.checkedAdd d = some u := by
  have hlower := u.lower
  have hupper := u.upper
  rw [h] at hlower hupper
  unfold checkedAdd
  rw [dif_pos ⟨hlower, hupper⟩]
  exact congrArg some (eq_of_nanos h.symm)

theorem checkedSub_nanos {t u : DateTime} {d : TimeDelta}
    (h : t.checkedSub d = some u) : u.nanos = t.nanos - d.nanos := by
  unfold checkedSub at h
  split at h
  · obtain rfl := Option.some.inj h
    rfl
  · cases h

/-- A difference that is an instant is computed without a panic. -/
theorem checkedSub_eq_some {t u : DateTime} {d : TimeDelta}
    (h : u.nanos = t.nanos - d.nanos) : t.checkedSub d = some u := by
  have hlower := u.lower
  have hupper := u.upper
  rw [h] at hlower hupper
  unfold checkedSub
  rw [dif_pos ⟨hlower, hupper⟩]
  exact congrArg some (eq_of_nanos h.symm)

theorem checkedSub_zero (t : DateTime) : t.checkedSub TimeDelta.zero = some t :=
  checkedSub_eq_some (Int.sub_zero _).symm

/-- A difference leaves the range exactly if it is too early: nothing is subtracted
that is negative. -/
theorem checkedSub_eq_none_iff {t : DateTime} {d : TimeDelta} (hnonneg : 0 ≤ d.nanos) :
    t.checkedSub d = none ↔ t.nanos - d.nanos < -8334601228800000000000 := by
  have hupper := t.upper
  unfold checkedSub
  split
  · rename_i hrange
    simp only [reduceCtorEq, false_iff]
    omega
  · rename_i hrange
    simp only [true_iff]
    omega

/-- A `MicroTime` as it is sent to the API server: cut to microseconds. -/
def toMicroTime (t : DateTime) : DateTime where
  nanos := t.nanos - t.nanos % 1000
  lower := by
    have hlower := t.lower
    have hmod := Int.emod_nonneg t.nanos (show (1000 : Int) ≠ 0 by decide)
    have hdiv := Int.emod_add_mul_ediv t.nanos 1000
    omega
  upper := by
    have hupper := t.upper
    have hmod := Int.emod_nonneg t.nanos (show (1000 : Int) ≠ 0 by decide)
    omega

/-- The reading has no part below a microsecond. -/
def Micros (t : DateTime) : Prop := t.nanos % 1000 = 0

theorem toMicroTime_le (t : DateTime) : t.toMicroTime.nanos ≤ t.nanos := by
  have hmod := Int.emod_nonneg t.nanos (show (1000 : Int) ≠ 0 by decide)
  change t.nanos - t.nanos % 1000 ≤ t.nanos
  omega

/-- A clock that reads microseconds loses nothing in a `MicroTime`. -/
theorem toMicroTime_of_micros {t : DateTime} (h : t.Micros) :
    t.toMicroTime.nanos = t.nanos := by
  change t.nanos - t.nanos % 1000 = t.nanos
  unfold Micros at h
  omega

end DateTime

end Lease
end Kubert
