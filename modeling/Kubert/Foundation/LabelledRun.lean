import Mathlib.Algebra.Ring.Int.Defs
import Mathlib.Data.List.Basic

/-!
# Finite runs of a labelled transition relation

A system is a relation `step s a t`: the action `a` may take the state `s` to
the state `t`.  `Run step s actions t` says that the listed actions, taken in
order, lead from `s` to `t`.  Everything a development claims of *every
reachable state* or of *every interleaving* is a statement about `Run`, and
the rules below are the only inductions needed for it:

* `Run.invariant` — a predicate kept by every step is kept by every run;
* `Run.history` — the same, for a predicate of a state and of the actions that
  have led to it;
* `Run.project` — a run of a system is a run of each of its parts;
* `Passes` — somewhere between two states, a step of a certain kind was taken;
* `Reaches` — some run, of actions of a certain kind alone, leads from one state to
  another;
* `Run.accumulate` — a measure which every step changes by a known amount is
  changed by a run by the sum of these amounts.

`execAll` runs a step *function* over a list of actions, so that a concrete
run can be evaluated; `run_of_execAll` turns the evaluation into a `Run`.
`measure_foldl_le` bounds what a total function makes of a list of inputs.
-/

namespace Kubert
namespace Foundation

universe u v

variable {State : Type u} {Action : Type v}

/-- The actions of the list lead, one after the other, from the first state to
the second. -/
inductive Run (step : State → Action → State → Prop) :
    State → List Action → State → Prop
  | nil (s : State) : Run step s [] s
  | cons {s t r : State} {a : Action} {actions : List Action}
      (hstep : step s a t) (hrun : Run step t actions r) :
      Run step s (a :: actions) r

namespace Run

variable {step : State → Action → State → Prop}

/-- A predicate that holds at the start and is kept by every step holds at the
end of every run. -/
theorem invariant (inv : State → Prop)
    (hkeep : ∀ s a t, inv s → step s a t → inv t)
    {s t : State} {actions : List Action}
    (hrun : Run step s actions t) (hstart : inv s) : inv t := by
  induction hrun with
  | nil s => exact hstart
  | cons hstep _ ih => exact ih (hkeep _ _ _ hstart hstep)

/-- A predicate of the state and of the actions so far, which every step keeps, is
kept by every run. -/
theorem history_append (inv : List Action → State → Prop)
    (hkeep : ∀ past s a t, inv past s → step s a t → inv (past ++ [a]) t)
    {s t : State} {past actions : List Action}
    (hrun : Run step s actions t) (hstart : inv past s) : inv (past ++ actions) t := by
  induction hrun generalizing past with
  | nil s =>
      rw [List.append_nil]
      exact hstart
  | cons hstep _ ih =>
      rw [List.append_cons]
      exact ih (hkeep _ _ _ _ hstart hstep)

/-- The same from the start on, where no action has been taken. -/
theorem history (inv : List Action → State → Prop)
    (hkeep : ∀ past s a t, inv past s → step s a t → inv (past ++ [a]) t)
    {s t : State} {actions : List Action}
    (hrun : Run step s actions t) (hstart : inv [] s) : inv actions t :=
  hrun.history_append inv hkeep hstart

/-- Runs compose. -/
theorem append {s t r : State} {first second : List Action}
    (hfirst : Run step s first t) (hsecond : Run step t second r) :
    Run step s (first ++ second) r := by
  induction hfirst with
  | nil s => exact hsecond
  | cons hstep _ ih => exact Run.cons hstep (ih hsecond)

/-- A run over two lists passes through a state between them. -/
theorem split {s r : State} {first second : List Action}
    (hrun : Run step s (first ++ second) r) :
    ∃ t, Run step s first t ∧ Run step t second r := by
  induction first generalizing s with
  | nil => exact ⟨s, Run.nil s, hrun⟩
  | cons a first ih =>
      cases hrun with
      | cons hstep hrest =>
          obtain ⟨t, hfirst, hsecond⟩ := ih hrest
          exact ⟨t, Run.cons hstep hfirst, hsecond⟩

/-- A run of a relation is a run of every larger relation. -/
theorem mono {larger : State → Action → State → Prop}
    (hle : ∀ s a t, step s a t → larger s a t)
    {s t : State} {actions : List Action}
    (hrun : Run step s actions t) : Run larger s actions t := by
  induction hrun with
  | nil s => exact Run.nil s
  | cons hstep _ ih => exact Run.cons (hle _ _ _ hstep) ih

/-- A run all of whose actions are permitted is a run of the permitted steps. -/
theorem restrict {permitted : Action → Prop} {s t : State}
    {actions : List Action} (hrun : Run step s actions t)
    (hpermitted : ∀ a ∈ actions, permitted a) :
    Run (fun s a t => step s a t ∧ permitted a) s actions t := by
  induction hrun with
  | nil s => exact Run.nil s
  | cons hstep _ ih =>
      obtain ⟨hfirst, hrest⟩ := List.forall_mem_cons.mp hpermitted
      exact Run.cons ⟨hstep, hfirst⟩ (ih hrest)

/-- A part of a system: the actions that the part takes part in are its steps, and the
others leave it alone. -/
theorem project {State' : Type*} {Action' : Type*} {step' : State' → Action' → State' → Prop}
    (part : State → State') (label : Action → Option Action')
    (hsome : ∀ s a t b, step s a t → label a = some b → step' (part s) b (part t))
    (hnone : ∀ s a t, step s a t → label a = none → part s = part t)
    {s t : State} {actions : List Action} (hrun : Run step s actions t) :
    Run step' (part s) (actions.filterMap label) (part t) := by
  induction hrun with
  | nil s => exact Run.nil (part s)
  | @cons s t r a actions hstep _ ih =>
      cases hlabel : label a with
      | none =>
          rw [List.filterMap_cons_none hlabel, hnone s a t hstep hlabel]
          exact ih
      | some b =>
          rw [List.filterMap_cons_some hlabel]
          exact Run.cons (hsome s a t b hstep hlabel) ih

/-- Along a run an integer measure changes by the sum of what the single steps
contribute, as long as an invariant that makes the contributions known is
available. -/
theorem accumulate (inv : State → Prop) (measure : State → Int)
    (gain : Action → Int)
    (hkeep : ∀ s a t, inv s → step s a t → inv t)
    (hgain : ∀ s a t, inv s → step s a t → measure t = measure s + gain a)
    {s t : State} {actions : List Action}
    (hrun : Run step s actions t) (hstart : inv s) :
    measure t = measure s + (actions.map gain).sum := by
  induction hrun with
  | nil s => simp
  | cons hstep _ ih =>
      rw [ih (hkeep _ _ _ hstart hstep), hgain _ _ _ hstart hstep]
      simp only [List.map_cons, List.sum_cons]
      omega

end Run

/-- Somewhere along a run from the first state to the second one, a step is taken of
which the fact holds. -/
def Passes (step : State → Action → State → Prop) (fact : State → Action → State → Prop)
    (s : State) (actions : List Action) (t : State) : Prop :=
  ∃ first a second r r', actions = first ++ a :: second ∧ Run step s first r ∧
    step r a r' ∧ Run step r' second t ∧ fact r a r'

namespace Passes

variable {step : State → Action → State → Prop} {fact : State → Action → State → Prop}
  {s t r : State} {actions : List Action} {a : Action}

/-- The last step of a run is taken along it. -/
theorem last (hrun : Run step s actions r) (hstep : step r a t) (hfact : fact r a t) :
    Passes step fact s (actions ++ [a]) t :=
  ⟨actions, a, [], r, t, rfl, hrun, hstep, Run.nil t, hfact⟩

/-- What was taken along a run was taken along every longer one. -/
theorem concat (hpasses : Passes step fact s actions r) (hstep : step r a t) :
    Passes step fact s (actions ++ [a]) t := by
  obtain ⟨first, b, second, u, u', rfl, hfirst, hb, hsecond, hfact⟩ := hpasses
  refine ⟨first, b, second ++ [a], u, u', by simp, hfirst, hb, ?_, hfact⟩
  exact hsecond.append (Run.cons hstep (Run.nil t))

theorem imp {other : State → Action → State → Prop}
    (himp : ∀ r a r', fact r a r' → other r a r')
    (hpasses : Passes step fact s actions t) : Passes step other s actions t := by
  obtain ⟨first, b, second, u, u', hcut, hfirst, hb, hsecond, hfact⟩ := hpasses
  exact ⟨first, b, second, u, u', hcut, hfirst, hb, hsecond, himp _ _ _ hfact⟩

end Passes

/-- Actions of this kind alone can lead from the first state to the second. -/
def Reaches (step : State → Action → State → Prop) (permitted : Action → Prop) (s t : State) :
    Prop :=
  ∃ actions, Run step s actions t ∧ ∀ a ∈ actions, permitted a

namespace Reaches

variable {step : State → Action → State → Prop} {permitted : Action → Prop} {s t r : State}

theorem refl (s : State) : Reaches step permitted s s := ⟨[], Run.nil s, by simp⟩

theorem single {a : Action} (hstep : step s a t) (ha : permitted a) :
    Reaches step permitted s t :=
  ⟨[a], Run.cons hstep (Run.nil t), by simpa using ha⟩

theorem trans (hfirst : Reaches step permitted s t) (hsecond : Reaches step permitted t r) :
    Reaches step permitted s r := by
  obtain ⟨first, hrun, hall⟩ := hfirst
  obtain ⟨second, hrun', hall'⟩ := hsecond
  refine ⟨first ++ second, hrun.append hrun', ?_⟩
  intro a ha
  rcases List.mem_append.mp ha with hmem | hmem
  · exact hall a hmem
  · exact hall' a hmem

end Reaches

/-- Run a step function over a list of actions; `none` as soon as one of them
is not enabled. -/
def execAll (step? : State → Action → Option State) :
    State → List Action → Option State
  | s, [] => some s
  | s, a :: actions => (step? s a).bind fun t => execAll step? t actions

theorem execAll_append {step? : State → Action → Option State} {s : State}
    {first second : List Action} :
    execAll step? s (first ++ second) =
      (execAll step? s first).bind fun t => execAll step? t second := by
  induction first generalizing s with
  | nil => rfl
  | cons a first ih =>
      rw [List.cons_append, execAll, execAll, Option.bind_assoc]
      simp only [ih]

/-- An evaluation of the step function is a run of its graph, and of every
relation that the graph is part of. -/
theorem run_of_execAll {step? : State → Action → Option State}
    {step : State → Action → State → Prop}
    (hstep : ∀ s a t, step? s a = some t → step s a t)
    {s t : State} {actions : List Action}
    (hexec : execAll step? s actions = some t) : Run step s actions t := by
  induction actions generalizing s with
  | nil =>
      obtain rfl : s = t := Option.some.inj hexec
      exact Run.nil s
  | cons a actions ih =>
      obtain ⟨next, hnext, hrest⟩ := Option.bind_eq_some_iff.mp hexec
      exact Run.cons (hstep s a next hnext) (ih hrest)

/-- If a list of actions and one more action can be evaluated, then the list
can, and the last action is a step from where it ends. -/
theorem exists_execAll_step {step? : State → Action → Option State}
    {s : State} {actions : List Action} {a : Action}
    (hexec : (execAll step? s (actions ++ [a])).isSome = true) :
    ∃ t r, execAll step? s actions = some t ∧ step? t a = some r ∧
      execAll step? s (actions ++ [a]) = some r := by
  obtain ⟨r, hr⟩ := Option.isSome_iff_exists.mp hexec
  have hsplit := hr
  rw [execAll_append] at hsplit
  obtain ⟨t, ht, hlast⟩ := Option.bind_eq_some_iff.mp hsplit
  obtain ⟨next, hnext, hend⟩ := Option.bind_eq_some_iff.mp hlast
  obtain rfl : next = r := Option.some.inj hend
  exact ⟨t, next, ht, hnext, hr⟩

/-- What can be evaluated about the end of an evaluated run is true of it. -/
theorem eq_of_execAll_map {β : Type*} {step? : State → Action → Option State}
    {s t : State} {actions : List Action} (f : State → β) {b : β}
    (hexec : execAll step? s actions = some t)
    (hmap : (execAll step? s actions).map f = some b) : f t = b := by
  rw [hexec, Option.map_some] at hmap
  exact Option.some.inj hmap

/-- If no input raises a measure by more than one, then a list of inputs does not raise it
by more than its length. -/
theorem measure_foldl_le {f : State → Action → State} (measure : State → Nat)
    (hinput : ∀ s a, measure (f s a) ≤ measure s + 1) (s : State) (inputs : List Action) :
    measure (inputs.foldl f s) ≤ measure s + inputs.length := by
  induction inputs generalizing s with
  | nil => exact Nat.le_refl _
  | cons a inputs ih =>
      have hfirst := hinput s a
      have hrest := ih (f s a)
      rw [List.foldl_cons, List.length_cons]
      omega

end Foundation
end Kubert
