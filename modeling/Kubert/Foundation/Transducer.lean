import Kubert.Foundation.LabelledRun

/-!
# Machines that read inputs and emit outputs

A transducer reads one input at a time, changes its state and emits a list of
outputs; it may also fail, after which nothing more happens.  `run` feeds it a
whole list and collects the outputs.

`run_append` cuts a run in two, `run_invariant` carries a predicate through it,
and `run_translate` is the rule for comparing two machines on the same inputs: if
the steps of one are those of the other seen through a translation, then so are
whole runs.  `run_simulates` compares a machine with a transition relation that is
labelled by its outputs, `isRun_of_run` is the case in which the two have the same
states, and `run_labels` is for machines that repeat their inputs in their outputs.
-/

namespace Kubert
namespace Foundation
namespace Transducer

universe u v w

variable {State State' : Type u} {Input : Type v} {Output Output' : Type w}

/-- Feed a list of inputs, collecting the outputs; `none` once a step fails. -/
def run (step : State → Input → Option (State × List Output)) :
    State → List Input → Option (State × List Output)
  | s, [] => some (s, [])
  | s, a :: inputs =>
      (step s a).bind fun next =>
        (run step next.1 inputs).map fun rest => (rest.1, next.2 ++ rest.2)

variable {step : State → Input → Option (State × List Output)}
  {step' : State' → Input → Option (State' × List Output')}

theorem run_cons_of_step {s t : State} {a : Input} {inputs : List Input}
    {out : List Output} (hstep : step s a = some (t, out)) :
    run step s (a :: inputs) =
      (run step t inputs).map fun rest => (rest.1, out ++ rest.2) := by
  rw [run, hstep]
  rfl

/-- A run of one step. -/
theorem run_singleton (s : State) (a : Input) : run step s [a] = step s a := by
  rw [run]
  cases hstep : step s a with
  | none => rfl
  | some next => simp [run]

/-- A run over two lists is a run over the first and then one over the second. -/
theorem run_append {s t r : State} {first second : List Input}
    {out more : List Output} (hfirst : run step s first = some (t, out))
    (hsecond : run step t second = some (r, more)) :
    run step s (first ++ second) = some (r, out ++ more) := by
  induction first generalizing s out with
  | nil =>
      obtain ⟨rfl, rfl⟩ := Prod.mk.inj (Option.some.inj hfirst)
      exact hsecond
  | cons a first ih =>
      obtain ⟨⟨mid, emitted⟩, hstep, hrest⟩ := Option.bind_eq_some_iff.mp hfirst
      obtain ⟨⟨last, later⟩, hlater, hpair⟩ := Option.map_eq_some_iff.mp hrest
      obtain ⟨rfl, rfl⟩ := Prod.mk.inj hpair
      rw [List.cons_append, run_cons_of_step hstep, ih hlater, List.append_assoc]
      rfl

/-- A predicate that every step keeps holds after every run. -/
theorem run_invariant (inv : State → Prop)
    (hkeep : ∀ s a t out, inv s → step s a = some (t, out) → inv t)
    {s t : State} {inputs : List Input} {out : List Output}
    (hrun : run step s inputs = some (t, out)) (hstart : inv s) : inv t := by
  induction inputs generalizing s out with
  | nil =>
      obtain ⟨rfl, -⟩ := Prod.mk.inj (Option.some.inj hrun)
      exact hstart
  | cons a inputs ih =>
      obtain ⟨⟨mid, emitted⟩, hstep, hrest⟩ := Option.bind_eq_some_iff.mp hrun
      obtain ⟨⟨last, more⟩, hmore, hpair⟩ := Option.map_eq_some_iff.mp hrest
      obtain ⟨rfl, -⟩ := Prod.mk.inj hpair
      exact ih hmore (hkeep s a mid emitted hstart hstep)

/-- If the steps of one machine are those of another one seen through a
translation of states and outputs, then so are its runs, failures included. -/
theorem run_translate (state : State → State') (output : Output → Output')
    (hstep : ∀ s a, step' (state s) a =
      (step s a).map fun next => (state next.1, next.2.map output))
    (s : State) (inputs : List Input) :
    run step' (state s) inputs =
      (run step s inputs).map fun last => (state last.1, last.2.map output) := by
  induction inputs generalizing s with
  | nil => rfl
  | cons a inputs ih =>
      cases hs : step s a with
      | none => simp [run, hstep, hs]
      | some next =>
          obtain ⟨t, out⟩ := next
          have hs' : step' (state s) a = some (state t, out.map output) := by
            rw [hstep, hs]
            rfl
          rw [run_cons_of_step hs, run_cons_of_step hs', ih, Option.map_map,
            Option.map_map]
          congr 1
          funext last
          simp

/-- If every step from related states succeeds, and its outputs are the labels of
steps of the relation, then so is and does every run. -/
theorem run_simulates {Abstract : Type*} {label : Abstract → Output → Abstract → Prop}
    (related : State → Abstract → Prop)
    (hstep : ∀ s r a, related s r → ∃ t out r', step s a = some (t, out) ∧
      Run label r out r' ∧ related t r')
    {s : State} {r : Abstract} (hrelated : related s r) (inputs : List Input) :
    ∃ t out r', run step s inputs = some (t, out) ∧ Run label r out r' ∧
      related t r' := by
  induction inputs generalizing s r with
  | nil => exact ⟨s, [], r, rfl, Run.nil r, hrelated⟩
  | cons a inputs ih =>
      obtain ⟨mid, emitted, mid', hfirst, hlabels, hmid⟩ := hstep s r a hrelated
      obtain ⟨t, out, r', hrest, hmore, hlast⟩ := ih hmid
      refine ⟨t, emitted ++ out, r', ?_, hlabels.append hmore, hlast⟩
      rw [run_cons_of_step hfirst, hrest]
      rfl

/-- If the outputs of every step are the labels of steps of a relation, then so are
those of a run. -/
theorem isRun_of_run {label : State → Output → State → Prop}
    (hstep : ∀ s a t out, step s a = some (t, out) → Run label s out t)
    {s t : State} {inputs : List Input} {out : List Output}
    (hrun : run step s inputs = some (t, out)) : Run label s out t := by
  induction inputs generalizing s out with
  | nil =>
      obtain ⟨rfl, rfl⟩ := Prod.mk.inj (Option.some.inj hrun)
      exact Run.nil s
  | cons a inputs ih =>
      obtain ⟨⟨mid, emitted⟩, hfirst, hrest⟩ := Option.bind_eq_some_iff.mp hrun
      obtain ⟨⟨last, more⟩, hmore, hpair⟩ := Option.map_eq_some_iff.mp hrest
      obtain ⟨rfl, rfl⟩ := Prod.mk.inj hpair
      exact (hstep s a mid emitted hfirst).append (ih hmore)

/-- If every step repeats its input in its outputs, a run repeats all of them. -/
theorem run_labels (input : Output → Input)
    (hstep : ∀ s a t out, step s a = some (t, out) → out.map input = [a])
    {s t : State} {inputs : List Input} {out : List Output}
    (hrun : run step s inputs = some (t, out)) : out.map input = inputs := by
  induction inputs generalizing s out with
  | nil =>
      obtain ⟨-, rfl⟩ := Prod.mk.inj (Option.some.inj hrun)
      rfl
  | cons a inputs ih =>
      obtain ⟨⟨mid, emitted⟩, hfirst, hrest⟩ := Option.bind_eq_some_iff.mp hrun
      obtain ⟨⟨last, more⟩, hmore, hpair⟩ := Option.map_eq_some_iff.mp hrest
      obtain ⟨rfl, rfl⟩ := Prod.mk.inj hpair
      rw [List.map_append, hstep s a mid emitted hfirst, ih hmore]
      rfl

end Transducer
end Foundation
end Kubert
