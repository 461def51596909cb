import Mathlib.Algebra.GroupWithZero.Nat
import Mathlib.Algebra.Ring.Int.Defs
import Mathlib.Data.List.Induction

/-!
# Populations

A system of any number of like processes keeps them in a list, by the number under
which each was started.  A step changes one of them, which is `List.set`, or starts
another one, which appends.  The lemmas say what this does to a count of the processes
with a property, and to a property that all of them have.
-/

namespace Kubert
namespace Foundation

universe u

variable {α : Type u} {processes : List α} {n : Nat} {old new : α}

/-- If one process changes, then the count changes by what it contributes. -/
theorem countP_set_add (p : α → Bool) (hold : processes[n]? = some old) (new : α) :
    (processes.set n new).countP p + (p old).toNat =
      processes.countP p + (p new).toNat := by
  obtain ⟨hlt, hget⟩ := List.getElem?_eq_some_iff.mp hold
  have hcount := List.countP_set (p := p) (a := new) hlt
  rw [hget] at hcount
  have hpositive : p old = true → 0 < processes.countP p := by
    intro hcounted
    exact List.countP_pos_iff.mpr ⟨old, List.mem_of_getElem? hold, hcounted⟩
  rw [hcount]
  cases hcounted : p old with
  | true =>
      have hpos := hpositive hcounted
      cases p new <;> simp <;> omega
  | false => cases p new <;> simp

/-- If another process is started, then the count changes by what it contributes. -/
theorem countP_append_singleton (p : α → Bool) (processes : List α) (new : α) :
    (processes ++ [new]).countP p = processes.countP p + (p new).toNat := by
  rw [List.countP_append, List.countP_singleton]
  cases p new <;> rfl

/-- The same for a quantity that is summed up over all processes. -/
theorem sum_map_set_add (f : α → Nat) (hold : processes[n]? = some old) (new : α) :
    ((processes.set n new).map f).sum + f old = (processes.map f).sum + f new := by
  induction processes generalizing n with
  | nil => cases hold
  | cons c processes ih =>
      cases n with
      | zero =>
          obtain rfl : c = old := Option.some.inj hold
          simp only [List.set_cons_zero, List.map_cons, List.sum_cons]
          omega
      | succ n =>
          have hrest := ih (n := n) hold
          simp only [List.set_cons_succ, List.map_cons, List.sum_cons]
          omega

/-- If every process of one kind is of exactly one of two kinds, then the counts of
these add up. -/
theorem countP_eq_add {p q r : α → Bool}
    (hkinds : ∀ c ∈ processes, (p c).toNat = (q c).toNat + (r c).toNat) :
    processes.countP p = processes.countP q + processes.countP r := by
  induction processes using List.reverseRecOn with
  | nil => rfl
  | append_singleton processes c ih =>
      have hc := hkinds c (List.mem_append_right processes (List.mem_singleton_self c))
      have hrest := ih fun c hc => hkinds c (List.mem_append_left _ hc)
      rw [countP_append_singleton, countP_append_singleton, countP_append_singleton]
      omega

/-- If one process changes and keeps what all have, then all have it. -/
theorem forall_mem_set {P : α → Prop} (hall : ∀ c ∈ processes, P c) (hnew : P new) :
    ∀ c ∈ processes.set n new, P c := by
  intro c hc
  rcases List.mem_or_eq_of_mem_set hc with hmem | rfl
  · exact hall c hmem
  · exact hnew

/-- If another process is started that has what all have, then all have it. -/
theorem forall_mem_append_singleton {P : α → Prop} (hall : ∀ c ∈ processes, P c)
    (hnew : P new) : ∀ c ∈ processes ++ [new], P c :=
  List.forall_mem_append.mpr ⟨hall, List.forall_mem_singleton.mpr hnew⟩

end Foundation
end Kubert
