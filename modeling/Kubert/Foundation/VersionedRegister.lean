import Mathlib.Data.List.Basic

/-!
# A register with optimistic concurrency control

A store that hands out a version with every value and accepts a write only
against the version it currently has.  Writers never hold a lock: each of them
keeps a *version it has seen* together with what it learned about the value at
that version, and this knowledge is used under the proviso that the version is
still the current one.

`Register.Knows r v P` is exactly this proviso: `v` is a version that was handed
out, and if it is still current then the value satisfies `P`.  A successful
write moves to a version that was never handed out before, so all knowledge
tied to older versions survives the write, vacuously (`Knows.write`).  This is
the reason why a single notion is enough for cached states, for requests in
flight and for answers on their way back: none of them has to be revisited
when somebody else writes.
-/

namespace Kubert
namespace Foundation

universe u v

/-- A versioned value.  `issued` lists all versions handed out so far, the
current one among them. -/
structure Register (Version : Type u) (Value : Type v) where
  version : Version
  value : Value
  issued : List Version
  version_mem : version ∈ issued

namespace Register

variable {Version : Type u} {Value : Type v}

/-- A register whose first version is the given one. -/
def initial (version : Version) (value : Value) : Register Version Value where
  version := version
  value := value
  issued := [version]
  version_mem := List.mem_singleton.mpr rfl

/-- An accepted write: the value is replaced and the version is one that was
never handed out before. -/
def write (r : Register Version Value) (version : Version) (value : Value) :
    Register Version Value where
  version := version
  value := value
  issued := version :: r.issued
  version_mem := List.mem_cons_self

@[simp] theorem write_version (r : Register Version Value) (version : Version)
    (value : Value) : (r.write version value).version = version := rfl

@[simp] theorem write_value (r : Register Version Value) (version : Version)
    (value : Value) : (r.write version value).value = value := rfl

/-- What the owner of a version may rely on: the version was handed out, and
while it is current the value satisfies the predicate. -/
def Knows (r : Register Version Value) (version : Version)
    (fact : Value → Prop) : Prop :=
  version ∈ r.issued ∧ (version = r.version → fact r.value)

variable {r : Register Version Value} {version : Version}
  {fact : Value → Prop}

/-- A reader of the current value knows everything that is true of it. -/
theorem knows_current (hfact : fact r.value) : r.Knows r.version fact :=
  ⟨r.version_mem, fun _ => hfact⟩

/-- Knowledge is used where the version turns out to be the current one, for
instance when a write against it is accepted. -/
theorem Knows.elim (hknows : r.Knows version fact)
    (hcurrent : version = r.version) : fact r.value :=
  hknows.2 hcurrent

/-- Knowledge can be weakened, also in the light of what is true of the
present value. -/
theorem Knows.imp {other : Value → Prop} (hknows : r.Knows version fact)
    (himp : fact r.value → other r.value) : r.Knows version other :=
  ⟨hknows.1, fun hcurrent => himp (hknows.2 hcurrent)⟩

/-- After a write to a new version, whatever was known of an older version is
known still, and so is anything else about it. -/
theorem Knows.write {other : Value → Prop} {next : Version} {value : Value}
    (hknows : r.Knows version fact) (hnew : next ∉ r.issued) :
    (r.write next value).Knows version other := by
  refine ⟨List.mem_cons_of_mem _ hknows.1, fun hcurrent => ?_⟩
  rw [write_version] at hcurrent
  exact absurd (hcurrent ▸ hknows.1) hnew

end Register

end Foundation
end Kubert
