import Kubert.Foundation.LabelledRun
import Kubert.Foundation.Population
import Mathlib.Data.List.Sublists

/-!
# Registries of weak references

A registry lists, under a lock, weak references to cells in the order in which they were
registered.  Every cell has an owner, who feeds it with inputs and drops it at some time;
the registry does not keep it alive.  A visit takes the lock, forgets the references to
cells that are gone, and shows those of the remaining cells that are still there when
their turn comes.  Owners go on while a visit is under way.

`visit_shows` says what a visit shows: all cells that are there until its end, none that
was gone before it began, in the order of registration and each as it is at some moment
of the visit.  `value_eq` says what this is: the cell fed with the inputs up to there.
`shows_of_visit` puts the two together, and `Shows.measure_le` bounds what is counted in
a cell by the number of its inputs.
-/

namespace Kubert
namespace Foundation

universe u v w

variable {σ : Type u} {ι : Type v} {β : Type w}

/-- How far a visit is: which references are kept, or which cells were shown. -/
inductive VisitPhase (β : Type w)
  | retaining (kept todo : List Nat)
  | reading (shown : List (Nat × β)) (todo : List Nat)

/-- A registry.  Cells are numbered, and `none` when they are dropped; `visit` is the
visit that holds the lock, with what it shows of a cell. -/
structure Registry (σ : Type u) (β : Type w) where
  cells : List (Option σ)
  refs : List Nat
  visit : Option ((Nat → σ → β) × VisitPhase β)

/-- What can happen to a registry. -/
inductive Registry.Action (σ : Type u) (ι : Type v) (β : Type w)
  | register (cell : σ)
  | feed (id : Nat) (input : ι)
  | drop (id : Nat)
  | lock (view : Nat → σ → β)
  | next
  | unlock

namespace Registry

variable (update : σ → ι → σ)

/-- Nothing is registered. -/
def empty : Registry σ β := ⟨[], [], none⟩

/-- The cell, if it is there. -/
def cell (r : Registry σ β) (id : Nat) : Option σ := r.cells[id]?.join

/-- The visit goes on with the next reference. -/
def next (r : Registry σ β) : Option (Registry σ β) :=
  match r.visit with
  | some (view, .retaining kept (id :: todo)) =>
      some { r with
        visit := some (view, .retaining
          (if (r.cell id).isSome then kept ++ [id] else kept) todo) }
  | some (view, .retaining kept []) =>
      some { r with refs := kept, visit := some (view, .reading [] kept) }
  | some (view, .reading shown (id :: todo)) =>
      some { r with
        visit := some (view, .reading
          (shown ++ ((r.cell id).map fun value => (id, view id value)).toList) todo) }
  | _ => none

/-- One action, with what a visit shows; `none` if it is not possible. -/
def step? (r : Registry σ β) :
    Action σ ι β → Option (Registry σ β × Option (List (Nat × β)))
  | .register cell =>
      if r.visit.isNone then
        some ({ r with
          cells := r.cells ++ [some cell]
          refs := r.refs ++ [r.cells.length] }, none)
      else none
  | .feed id input =>
      (r.cell id).map fun value =>
        ({ r with cells := r.cells.set id (some (update value input)) }, none)
  | .drop id => (r.cell id).map fun _ => ({ r with cells := r.cells.set id none }, none)
  | .lock view =>
      if r.visit.isNone then
        some ({ r with visit := some (view, .retaining [] r.refs) }, none)
      else none
  | .next => r.next.map fun r' => (r', none)
  | .unlock =>
      match r.visit with
      | some (_, .reading shown []) => some ({ r with visit := none }, some shown)
      | _ => none

/-- The step relation, with what a visit shows. -/
def Step (r : Registry σ β) (event : Action σ ι β × Option (List (Nat × β)))
    (r' : Registry σ β) : Prop :=
  r.step? update event.1 = some (r', event.2)

variable {update}

/-! ## What a step does -/

/-- Everything that one action can do. -/
inductive Cases (update : σ → ι → σ) (r : Registry σ β) :
    Action σ ι β → Registry σ β → Option (List (Nat × β)) → Prop
  | register {cell : σ} (hvisit : r.visit = none) :
      Cases update r (.register cell)
        { r with cells := r.cells ++ [some cell], refs := r.refs ++ [r.cells.length] } none
  | feed {id : Nat} {input : ι} {value : σ} (hcell : r.cell id = some value) :
      Cases update r (.feed id input)
        { r with cells := r.cells.set id (some (update value input)) } none
  | drop {id : Nat} {value : σ} (hcell : r.cell id = some value) :
      Cases update r (.drop id) { r with cells := r.cells.set id none } none
  | lock {view : Nat → σ → β} (hvisit : r.visit = none) :
      Cases update r (.lock view)
        { r with visit := some (view, .retaining [] r.refs) } none
  | retain {view : Nat → σ → β} {kept todo : List Nat} {id : Nat}
      (hvisit : r.visit = some (view, .retaining kept (id :: todo))) :
      Cases update r .next
        { r with
          visit := some (view, .retaining
            (if (r.cell id).isSome then kept ++ [id] else kept) todo) } none
  | retained {view : Nat → σ → β} {kept : List Nat}
      (hvisit : r.visit = some (view, .retaining kept [])) :
      Cases update r .next { r with refs := kept, visit := some (view, .reading [] kept) }
        none
  | read {view : Nat → σ → β} {shown : List (Nat × β)} {todo : List Nat} {id : Nat}
      (hvisit : r.visit = some (view, .reading shown (id :: todo))) :
      Cases update r .next
        { r with
          visit := some (view, .reading
            (shown ++ ((r.cell id).map fun value => (id, view id value)).toList) todo) } none
  | unlock {view : Nat → σ → β} {shown : List (Nat × β)}
      (hvisit : r.visit = some (view, .reading shown [])) :
      Cases update r .unlock { r with visit := none } (some shown)

theorem step?_cases {r r' : Registry σ β} {a : Action σ ι β}
    {out : Option (List (Nat × β))} (h : r.step? update a = some (r', out)) :
    Cases update r a r' out := by
  cases a with
  | register cell =>
      obtain ⟨hvisit, hrest⟩ := Option.ite_none_right_eq_some.mp h
      obtain ⟨rfl, rfl⟩ := Prod.mk.inj (Option.some.inj hrest)
      exact Cases.register (Option.isNone_iff_eq_none.mp hvisit)
  | feed id input =>
      obtain ⟨value, hcell, hpair⟩ := Option.map_eq_some_iff.mp h
      obtain ⟨rfl, rfl⟩ := Prod.mk.inj hpair
      exact Cases.feed hcell
  | drop id =>
      obtain ⟨value, hcell, hpair⟩ := Option.map_eq_some_iff.mp h
      obtain ⟨rfl, rfl⟩ := Prod.mk.inj hpair
      exact Cases.drop hcell
  | lock view =>
      obtain ⟨hvisit, hrest⟩ := Option.ite_none_right_eq_some.mp h
      obtain ⟨rfl, rfl⟩ := Prod.mk.inj (Option.some.inj hrest)
      exact Cases.lock (Option.isNone_iff_eq_none.mp hvisit)
  | next =>
      obtain ⟨r'', hnext, hpair⟩ := Option.map_eq_some_iff.mp h
      obtain ⟨rfl, rfl⟩ := Prod.mk.inj hpair
      unfold next at hnext
      split at hnext
      · rename_i hvisit
        obtain rfl := Option.some.inj hnext
        exact Cases.retain hvisit
      · rename_i hvisit
        obtain rfl := Option.some.inj hnext
        exact Cases.retained hvisit
      · rename_i hvisit
        obtain rfl := Option.some.inj hnext
        exact Cases.read hvisit
      · cases hnext
  | unlock =>
      simp only [step?] at h
      split at h
      · rename_i hvisit
        obtain ⟨rfl, rfl⟩ := Prod.mk.inj (Option.some.inj h)
        exact Cases.unlock hvisit
      · cases h

/-! ## Cells -/

theorem cell_set_self {r : Registry σ β} {id : Nat} {value : σ} (hcell : r.cell id = some value)
    (new : Option σ) : (r.cells.set id new)[id]?.join = new := by
  have hlt : id < r.cells.length := by
    by_contra hge
    rw [cell, List.getElem?_eq_none (not_lt.mp hge)] at hcell
    cases hcell
  rw [List.getElem?_set_self hlt]
  rfl

theorem cell_set_ne {r : Registry σ β} {id id' : Nat} (hne : id ≠ id') (new : Option σ) :
    (r.cells.set id new)[id']?.join = r.cell id' := by
  rw [List.getElem?_set_ne hne]
  rfl

/-- The cells that a step leaves are there before it, unless it registers one. -/
theorem Cases.cell_isSome {r r' : Registry σ β} {a : Action σ ι β}
    {out : Option (List (Nat × β))} (h : Cases update r a r' out)
    (hregister : ∀ cell, a ≠ .register cell) {id : Nat} (hcell : (r'.cell id).isSome = true) :
    (r.cell id).isSome = true := by
  cases h with
  | register => exact absurd rfl (hregister _)
  | @feed id' _ _ hbefore =>
      by_cases hid : id' = id
      · subst hid
        rw [hbefore]
        rfl
      · rwa [cell, cell_set_ne hid] at hcell
  | @drop id' _ hbefore =>
      by_cases hid : id' = id
      · subst hid
        rw [hbefore]
        rfl
      · rwa [cell, cell_set_ne hid] at hcell
  | lock | retain | retained | read | unlock => exact hcell

/-! ## References -/

/-- The references are in the order of registration and no cell that is there is missing,
also from what is left of a visit. -/
structure Listed (r : Registry σ β) : Prop where
  sorted : r.refs.Pairwise (· < ·)
  bounded : ∀ id ∈ r.refs, id < r.cells.length
  present : ∀ id, (r.cell id).isSome = true → id ∈ r.refs
  retaining : ∀ view kept todo, r.visit = some (view, .retaining kept todo) →
    (kept ++ todo).Sublist r.refs ∧
      ∀ id, (r.cell id).isSome = true → id ∈ kept ++ todo
  reading : ∀ view shown todo, r.visit = some (view, .reading shown todo) →
    (shown.map Prod.fst ++ todo).Sublist r.refs ∧
      ∀ id, (r.cell id).isSome = true → id ∈ shown.map Prod.fst ++ todo

theorem Listed.empty : (empty : Registry σ β).Listed :=
  ⟨List.Pairwise.nil, nofun, nofun, nofun, nofun⟩

/-- Owners keep the references in order. -/
theorem Listed.set {r : Registry σ β} (h : r.Listed) (id : Nat) (new : Option σ)
    (hcells : ∀ id', ((r.cells.set id new)[id']?.join).isSome = true →
      (r.cell id').isSome = true) :
    ({ r with cells := r.cells.set id new } : Registry σ β).Listed where
  sorted := h.sorted
  bounded := by simpa using h.bounded
  present := fun id' hcell => h.present id' (hcells id' hcell)
  retaining := fun view kept todo hvisit =>
    ⟨(h.retaining view kept todo hvisit).1, fun id' hcell =>
      (h.retaining view kept todo hvisit).2 id' (hcells id' hcell)⟩
  reading := fun view shown todo hvisit =>
    ⟨(h.reading view shown todo hvisit).1, fun id' hcell =>
      (h.reading view shown todo hvisit).2 id' (hcells id' hcell)⟩

theorem Listed.register {r : Registry σ β} (h : r.Listed) (cell : σ)
    (hvisit : r.visit = none) :
    ({ r with cells := r.cells ++ [some cell], refs := r.refs ++ [r.cells.length] } :
      Registry σ β).Listed where
  sorted := by
    refine List.pairwise_append.mpr ⟨h.sorted, List.pairwise_singleton _ _, ?_⟩
    intro id hid id' hid'
    rw [List.mem_singleton.mp hid']
    exact h.bounded id hid
  bounded := by
    intro id hid
    rw [List.length_append, List.length_singleton]
    rcases List.mem_append.mp hid with hold | hnew
    · exact Nat.lt_succ_of_lt (h.bounded id hold)
    · rw [List.mem_singleton.mp hnew]
      exact Nat.lt_succ_self _
  present := by
    intro id hcell
    rw [List.mem_append, List.mem_singleton]
    by_cases hlt : id < r.cells.length
    · left
      refine h.present id ?_
      simp only [Registry.cell, List.getElem?_append_left hlt] at hcell
      exact hcell
    · right
      by_contra hne
      have hnone : (r.cells ++ [some cell])[id]? = none := by
        apply List.getElem?_eq_none
        rw [List.length_append, List.length_singleton]
        omega
      rw [Registry.cell, hnone] at hcell
      cases hcell
  retaining := fun view kept todo hsome => by
    rw [show r.visit = _ from hsome] at hvisit
    cases hvisit
  reading := fun view shown todo hsome => by
    rw [show r.visit = _ from hsome] at hvisit
    cases hvisit

/-- Every action keeps the references in order and complete. -/
theorem Listed.cases {r r' : Registry σ β} {a : Action σ ι β}
    {out : Option (List (Nat × β))} (h : r.Listed) (hcases : Cases update r a r' out) :
    r'.Listed := by
  have halive := hcases.cell_isSome
  cases hcases with
  | register hvisit => exact h.register _ hvisit
  | feed => exact h.set _ _ fun id' hcell => halive nofun hcell
  | drop => exact h.set _ _ fun id' hcell => halive nofun hcell
  | lock =>
      refine ⟨h.sorted, h.bounded, h.present, ?_, nofun⟩
      intro view kept todo hsome
      obtain ⟨-, hphase⟩ := Prod.mk.inj (Option.some.inj hsome)
      obtain ⟨rfl, rfl⟩ := VisitPhase.retaining.inj hphase
      exact ⟨List.Sublist.refl _, h.present⟩
  | @retain view kept todo id hvisit =>
      obtain ⟨hsub, hall⟩ := h.retaining _ _ _ hvisit
      refine ⟨h.sorted, h.bounded, h.present, ?_, nofun⟩
      intro view' kept' todo' hsome
      obtain ⟨-, hphase⟩ := Prod.mk.inj (Option.some.inj hsome)
      obtain ⟨rfl, rfl⟩ := VisitPhase.retaining.inj hphase
      cases hid : (r.cell id).isSome with
      | true =>
          rw [if_pos rfl, ← List.append_cons]
          exact ⟨hsub, hall⟩
      | false =>
          rw [if_neg Bool.false_ne_true]
          refine ⟨?_, ?_⟩
          · exact ((List.Sublist.refl kept).append (List.sublist_cons_self id todo)).trans hsub
          · intro id' hcell
            have hmem := hall id' hcell
            rw [List.mem_append, List.mem_cons] at hmem
            rw [List.mem_append]
            rcases hmem with hkept | rfl | htodo
            · exact Or.inl hkept
            · rw [show (r.cell id').isSome = true from hcell] at hid
              cases hid
            · exact Or.inr htodo
  | @retained view kept hvisit =>
      obtain ⟨hsub, hall⟩ := h.retaining _ _ _ hvisit
      rw [List.append_nil] at hsub hall
      refine ⟨h.sorted.sublist hsub, fun id hid => h.bounded id (hsub.subset hid), hall, nofun,
        ?_⟩
      intro view' shown todo hsome
      obtain ⟨-, hphase⟩ := Prod.mk.inj (Option.some.inj hsome)
      obtain ⟨rfl, rfl⟩ := VisitPhase.reading.inj hphase
      exact ⟨List.Sublist.refl _, hall⟩
  | @read view shown todo id hvisit =>
      obtain ⟨hsub, hall⟩ := h.reading _ _ _ hvisit
      refine ⟨h.sorted, h.bounded, h.present, nofun, ?_⟩
      intro view' shown' todo' hsome
      obtain ⟨-, hphase⟩ := Prod.mk.inj (Option.some.inj hsome)
      obtain ⟨rfl, rfl⟩ := VisitPhase.reading.inj hphase
      cases hcell : r.cell id with
      | some value =>
          simp only [Option.map_some, Option.toList_some, List.map_append, List.map_cons,
            List.map_nil]
          rw [← List.append_cons]
          exact ⟨hsub, hall⟩
      | none =>
          simp only [Option.map_none, Option.toList_none, List.append_nil]
          refine ⟨?_, ?_⟩
          · exact ((List.Sublist.refl _).append (List.sublist_cons_self id todo)).trans hsub
          · intro id' hcell'
            have hmem := hall id' hcell'
            rw [List.mem_append, List.mem_cons] at hmem
            rw [List.mem_append]
            rcases hmem with hshown | rfl | htodo
            · exact Or.inl hshown
            · have hthere : (r.cell id').isSome = true := hcell'
              rw [hcell] at hthere
              cases hthere
            · exact Or.inr htodo
  | unlock => exact ⟨h.sorted, h.bounded, h.present, nofun, nofun⟩

theorem listed_of_run {events : List (Action σ ι β × Option (List (Nat × β)))}
    {r : Registry σ β} (hrun : Run (Step update) empty events r) : r.Listed :=
  hrun.invariant Listed (fun _ _ _ h hstep => h.cases (step?_cases hstep)) Listed.empty

/-! ## Visits -/

/-- An event of a run. -/
abbrev Event (σ : Type u) (ι : Type v) (β : Type w) :=
  Action σ ι β × Option (List (Nat × β))

/-- What is shown of a cell is how it is at some moment of the visit. -/
def ShownDuring (update : σ → ι → σ) (start : Registry σ β) (during : List (Event σ ι β))
    (view : Nat → σ → β) (id : Nat) (b : β) : Prop :=
  ∃ first last r value, during = first ++ last ∧ Run (Step update) start first r ∧
    r.cell id = some value ∧ b = view id value

/-- How far a visit is that has begun at `start`. -/
structure Visiting (update : σ → ι → σ) (start : Registry σ β) (view : Nat → σ → β)
    (during : List (Event σ ι β)) (r : Registry σ β) : Prop where
  run : Run (Step update) start during r
  alive : ∀ id, (r.cell id).isSome = true → (start.cell id).isSome = true
  phase : (∃ kept todo, r.visit = some (view, .retaining kept todo) ∧
      ∀ id ∈ kept, (start.cell id).isSome = true) ∨
    (∃ shown todo, r.visit = some (view, .reading shown todo) ∧
      (∀ id ∈ r.refs, (start.cell id).isSome = true) ∧
      ∀ entry ∈ shown, ShownDuring update start during view entry.1 entry.2)

theorem ShownDuring.append {start : Registry σ β} {during : List (Event σ ι β)}
    {view : Nat → σ → β} {id : Nat} {b : β}
    (h : ShownDuring update start during view id b) (more : List (Event σ ι β)) :
    ShownDuring update start (during ++ more) view id b := by
  obtain ⟨first, last, r, value, rfl, hrun, hcell, hb⟩ := h
  exact ⟨first, last ++ more, r, value, List.append_assoc _ _ _, hrun, hcell, hb⟩

theorem Visiting.step {start r r' : Registry σ β} {view : Nat → σ → β}
    {during : List (Event σ ι β)} {event : Event σ ι β}
    (h : Visiting update start view during r) (hevent : event.1 ≠ .unlock)
    (hstep : Step update r event r') :
    Visiting update start view (during ++ [event]) r' := by
  have hlocked : r.visit ≠ none := by
    rcases h.phase with ⟨kept, todo, hvisit, -⟩ | ⟨shown, todo, hvisit, -⟩
    · simp [hvisit]
    · simp [hvisit]
  have hrun := h.run.append (Run.cons hstep (Run.nil r'))
  obtain ⟨a, out⟩ := event
  have hcases := step?_cases hstep
  have halive := hcases.cell_isSome
  -- Owners do not touch the visit.
  have howners : r'.visit = r.visit → r'.refs = r.refs →
      (∃ kept todo, r'.visit = some (view, .retaining kept todo) ∧
        ∀ id ∈ kept, (start.cell id).isSome = true) ∨
      (∃ shown todo, r'.visit = some (view, .reading shown todo) ∧
        (∀ id ∈ r'.refs, (start.cell id).isSome = true) ∧
        ∀ entry ∈ shown,
          ShownDuring update start (during ++ [(a, out)]) view entry.1 entry.2) := by
    intro hvisit hrefs
    rw [hvisit, hrefs]
    rcases h.phase with hkept | ⟨shown, todo, hphase, hstart, hshown⟩
    · exact Or.inl hkept
    · exact Or.inr ⟨shown, todo, hphase, hstart, fun entry hentry =>
        (hshown entry hentry).append _⟩
  cases hcases with
  | register hvisit => exact absurd hvisit hlocked
  | lock hvisit => exact absurd hvisit hlocked
  | unlock => exact absurd rfl hevent
  | feed => exact ⟨hrun, fun id hcell => h.alive id (halive nofun hcell), howners rfl rfl⟩
  | drop => exact ⟨hrun, fun id hcell => h.alive id (halive nofun hcell), howners rfl rfl⟩
  | @retain view' kept todo id hvisit =>
      refine ⟨hrun, h.alive, Or.inl ?_⟩
      rcases h.phase with ⟨kept', todo', hphase, hkept⟩ | ⟨shown, todo', hphase, -⟩
      · rw [hvisit] at hphase
        obtain ⟨rfl, hsame⟩ := Prod.mk.inj (Option.some.inj hphase)
        obtain ⟨rfl, rfl⟩ := VisitPhase.retaining.inj hsame
        refine ⟨_, _, rfl, ?_⟩
        split
        · rename_i hthere
          exact forall_mem_append_singleton hkept (h.alive id hthere)
        · exact hkept
      · rw [hvisit] at hphase
        cases hphase
  | @retained view' kept hvisit =>
      refine ⟨hrun, h.alive, Or.inr ?_⟩
      rcases h.phase with ⟨kept', todo', hphase, hkept⟩ | ⟨shown, todo', hphase, -⟩
      · rw [hvisit] at hphase
        obtain ⟨rfl, hsame⟩ := Prod.mk.inj (Option.some.inj hphase)
        obtain ⟨rfl, rfl⟩ := VisitPhase.retaining.inj hsame
        exact ⟨[], kept, rfl, hkept, nofun⟩
      · rw [hvisit] at hphase
        cases hphase
  | @read view' shown todo id hvisit =>
      refine ⟨hrun, h.alive, Or.inr ?_⟩
      rcases h.phase with ⟨kept', todo', hphase, -⟩ | ⟨shown', todo', hphase, hstart, hshown⟩
      · rw [hvisit] at hphase
        cases hphase
      · rw [hvisit] at hphase
        obtain ⟨rfl, hsame⟩ := Prod.mk.inj (Option.some.inj hphase)
        obtain ⟨rfl, rfl⟩ := VisitPhase.reading.inj hsame
        refine ⟨_, _, rfl, hstart, ?_⟩
        intro entry hentry
        rcases List.mem_append.mp hentry with hbefore | hnow
        · exact (hshown entry hbefore).append _
        · obtain ⟨value, hcell, rfl⟩ :=
            Option.map_eq_some_iff.mp (Option.mem_toList.mp hnow)
          exact ⟨during, [(.next, none)], r, value, rfl, h.run, hcell, rfl⟩

theorem visiting_of_run {start r : Registry σ β} {view : Nat → σ → β} {kept todo : List Nat}
    (hstart : start.visit = some (view, .retaining kept todo)) (hkept : kept = [])
    {during : List (Event σ ι β)} (hduring : ∀ event ∈ during, event.1 ≠ .unlock)
    (hrun : Run (Step update) start during r) :
    Visiting update start view during r := by
  refine (hrun.restrict hduring).history
    (fun past r => Visiting update start view past r) ?_ ?_
  · intro past r event r' hvisiting hstep
    exact hvisiting.step hstep.2 hstep.1
  · refine ⟨Run.nil start, fun id hcell => hcell, Or.inl ⟨kept, todo, hstart, ?_⟩⟩
    rw [hkept]
    exact nofun

/-- What a visit shows: the cells in the order of registration, among them all that are
there at its end and only ones that were there at its beginning, each as it is at some
moment of the visit.  Afterwards no reference is left to a cell that was gone before. -/
theorem visit_shows {before during : List (Event σ ι β)} {r start last r' : Registry σ β}
    {view : Nat → σ → β} {shown : List (Nat × β)}
    (hbefore : Run (Step update) empty before r)
    (hlock : Step update r (.lock view, none) start)
    (hduring : Run (Step update) start during last)
    (hlocked : ∀ event ∈ during, event.1 ≠ .unlock)
    (hunlock : Step update last (.unlock, some shown) r') :
    (shown.map Prod.fst).Pairwise (· < ·) ∧
      (∀ id, (r'.cell id).isSome = true → id ∈ shown.map Prod.fst) ∧
      (∀ id ∈ shown.map Prod.fst, (r.cell id).isSome = true) ∧
      (∀ entry ∈ shown, ShownDuring update start during view entry.1 entry.2) ∧
      ∀ id ∈ r'.refs, (r.cell id).isSome = true := by
  have hlisted : last.Listed :=
    listed_of_run ((hbefore.append (Run.cons hlock (Run.nil start))).append hduring)
  cases step?_cases hlock with
  | lock =>
  cases step?_cases hunlock with
  | @unlock view' _ hvisit =>
  have hvisiting := visiting_of_run rfl rfl hlocked hduring
  obtain ⟨hsub, hall⟩ := hlisted.reading _ _ _ hvisit
  rw [List.append_nil] at hsub hall
  rcases hvisiting.phase with ⟨kept, todo, hphase, -⟩ | ⟨shown', todo', hphase, hrefs, hshown⟩
  · rw [hvisit] at hphase
    cases hphase
  · rw [hvisit] at hphase
    obtain ⟨rfl, hsame⟩ := Prod.mk.inj (Option.some.inj hphase)
    obtain ⟨rfl, rfl⟩ := VisitPhase.reading.inj hsame
    exact ⟨hlisted.sorted.sublist hsub, hall, fun id hid => hrefs id (hsub.subset hid), hshown,
      hrefs⟩

/-! ## What is in a cell -/

/-- The cells that are registered in a run, as they are registered. -/
def registrations (events : List (Event σ ι β)) : List σ :=
  events.filterMap fun event =>
    match event.1 with
    | .register cell => some cell
    | _ => none

theorem mem_registrations {events : List (Event σ ι β)} {cell : σ} :
    cell ∈ registrations events ↔ ∃ out, (.register cell, out) ∈ events := by
  unfold registrations
  rw [List.mem_filterMap]
  constructor
  · rintro ⟨⟨a, out⟩, hmem, hsome⟩
    cases a with
    | register cell' =>
        obtain rfl := Option.some.inj hsome
        exact ⟨out, hmem⟩
    | feed | drop | lock | next | unlock => cases hsome
  · rintro ⟨out, hmem⟩
    exact ⟨_, hmem, rfl⟩

/-- The inputs that a cell is fed with in a run. -/
def inputs (id : Nat) (events : List (Event σ ι β)) : List ι :=
  events.filterMap fun event =>
    match event.1 with
    | .feed id' input => if id' = id then some input else none
    | _ => none

/-- Every cell that is there has been registered, and fed with its inputs. -/
structure Fed (update : σ → ι → σ) (events : List (Event σ ι β)) (r : Registry σ β) :
    Prop where
  length : r.cells.length = (registrations events).length
  value : ∀ id value, r.cell id = some value → ∃ first,
    (registrations events)[id]? = some first ∧
      value = (inputs id events).foldl update first
  unfed : ∀ id, r.cells.length ≤ id → inputs id events = []

/-- An event that is about no cell changes none. -/
theorem Fed.frame {events : List (Event σ ι β)} {r r' : Registry σ β} {event : Event σ ι β}
    (h : Fed update events r) (hcells : r'.cells = r.cells)
    (hregister : ∀ cell, event.1 ≠ .register cell) (hfeed : ∀ id input, event.1 ≠ .feed id input) :
    Fed update (events ++ [event]) r' := by
  obtain ⟨a, out⟩ := event
  have hregistrations : registrations (events ++ [(a, out)]) = registrations events := by
    cases a <;> simp_all [registrations]
  have hinputs : ∀ id, inputs id (events ++ [(a, out)]) = inputs id events := by
    intro id
    cases a <;> simp_all [inputs]
  refine ⟨by rw [hcells, hregistrations]; exact h.length, ?_, ?_⟩
  · intro id value hcell
    rw [hregistrations, hinputs]
    refine h.value id value ?_
    rw [cell, ← hcells]
    exact hcell
  · intro id hle
    rw [hinputs]
    exact h.unfed id (hcells ▸ hle)

theorem Fed.register {events : List (Event σ ι β)} {r : Registry σ β}
    (h : Fed update events r) (new : σ) (out : Option (List (Nat × β))) :
    Fed update (events ++ [(.register new, out)])
      { r with cells := r.cells ++ [some new], refs := r.refs ++ [r.cells.length] } := by
  have hregistrations : registrations (events ++ [(.register new, out)]) =
      registrations events ++ [new] := by
    simp [registrations]
  have hinputs : ∀ id, inputs id (events ++ [(.register new, out)]) = inputs id events := by
    simp [inputs]
  refine ⟨?_, ?_, ?_⟩
  · rw [hregistrations, List.length_append, List.length_append, h.length]
    rfl
  · intro id value hcell
    rw [hregistrations, hinputs]
    rcases Nat.lt_trichotomy id r.cells.length with hlt | rfl | hgt
    · rw [List.getElem?_append_left (h.length ▸ hlt)]
      refine h.value id value ?_
      rw [← hcell]
      simp only [cell, List.getElem?_append_left hlt]
    · refine ⟨new, by rw [h.length, List.getElem?_concat_length], ?_⟩
      rw [h.unfed _ (Nat.le_refl _)]
      simp only [cell, List.getElem?_concat_length, Option.join_some] at hcell
      exact (Option.some.inj hcell).symm
    · have hnone : (r.cells ++ [some new])[id]? = none :=
        List.getElem?_eq_none (by rw [List.length_append, List.length_singleton]; omega)
      simp only [cell, hnone] at hcell
      cases hcell
  · intro id hle
    rw [hinputs]
    refine h.unfed id ?_
    rw [List.length_append] at hle
    omega

theorem Fed.feed {events : List (Event σ ι β)} {r : Registry σ β} (h : Fed update events r)
    {id : Nat} {value : σ} (hcell : r.cell id = some value) (input : ι)
    (out : Option (List (Nat × β))) :
    Fed update (events ++ [(.feed id input, out)])
      { r with cells := r.cells.set id (some (update value input)) } := by
  have hregistrations : registrations (events ++ [(.feed id input, out)]) =
      registrations events := by
    simp [registrations]
  have hself : inputs id (events ++ [(.feed id input, out)]) = inputs id events ++ [input] := by
    simp [inputs]
  have hothers : ∀ id', id ≠ id' →
      inputs id' (events ++ [(.feed id input, out)]) = inputs id' events := by
    intro id' hne
    simp [inputs, hne]
  refine ⟨by rw [hregistrations, List.length_set]; exact h.length, ?_, ?_⟩
  · intro id' value' hcell'
    rw [hregistrations]
    by_cases hid : id = id'
    · subst hid
      rw [cell, cell_set_self hcell] at hcell'
      obtain rfl := Option.some.inj hcell'
      obtain ⟨first, hfirst, hvalue⟩ := h.value id value hcell
      refine ⟨first, hfirst, ?_⟩
      rw [hself, List.foldl_append, ← hvalue]
      rfl
    · rw [cell, cell_set_ne hid] at hcell'
      rw [hothers id' hid]
      exact h.value id' value' hcell'
  · intro id' hle
    rw [List.length_set] at hle
    have hne : id ≠ id' := by
      rintro rfl
      rw [cell, List.getElem?_eq_none hle] at hcell
      cases hcell
    rw [hothers id' hne]
    exact h.unfed id' hle

theorem Fed.drop {events : List (Event σ ι β)} {r : Registry σ β} (h : Fed update events r)
    {id : Nat} {value : σ} (hcell : r.cell id = some value) (out : Option (List (Nat × β))) :
    Fed update (events ++ [(.drop id, out)]) { r with cells := r.cells.set id none } := by
  have hframe : Fed update (events ++ [(.drop id, out)]) r := h.frame rfl nofun nofun
  refine ⟨by rw [List.length_set]; exact hframe.length, ?_, ?_⟩
  · intro id' value' hcell'
    by_cases hid : id = id'
    · subst hid
      rw [Registry.cell, cell_set_self hcell] at hcell'
      cases hcell'
    · rw [Registry.cell, cell_set_ne hid] at hcell'
      exact hframe.value id' value' hcell'
  · intro id' hle
    rw [List.length_set] at hle
    exact hframe.unfed id' hle

theorem fed_of_run {events : List (Event σ ι β)} {r : Registry σ β}
    (hrun : Run (Step update) empty events r) : Fed update events r := by
  refine hrun.history (Fed update) ?_ ⟨rfl, nofun, fun _ _ => rfl⟩
  rintro past r ⟨a, out⟩ r' h hstep
  cases step?_cases hstep with
  | register => exact h.register _ _
  | feed hcell => exact h.feed hcell _ _
  | drop hcell => exact h.drop hcell _
  | lock | retain | retained | read | unlock => exact h.frame rfl nofun nofun

/-- A cell is what was registered, fed with its inputs so far. -/
theorem value_eq {events : List (Event σ ι β)} {r : Registry σ β}
    (hrun : Run (Step update) empty events r) {id : Nat} {value : σ}
    (hcell : r.cell id = some value) :
    ∃ first, (registrations events)[id]? = some first ∧
      value = (inputs id events).foldl update first :=
  (fed_of_run hrun).value id value hcell

/-- What a visit shows, in terms of the inputs of the cells: what was registered, fed with
the inputs from before the visit and some of those that come during it. -/
structure Shows (update : σ → ι → σ) (view : Nat → σ → β)
    (before during : List (Event σ ι β)) (r r' : Registry σ β) (shown : List (Nat × β)) :
    Prop where
  ordered : (shown.map Prod.fst).Pairwise (· < ·)
  complete : ∀ id, (r'.cell id).isSome = true → id ∈ shown.map Prod.fst
  live : ∀ id ∈ shown.map Prod.fst, (r.cell id).isSome = true
  cleared : ∀ id ∈ r'.refs, (r.cell id).isSome = true
  current : ∀ entry ∈ shown, ∃ first fed,
    (registrations (before ++ during))[entry.1]? = some first ∧
      inputs entry.1 before <+: fed ∧ fed <+: inputs entry.1 (before ++ during) ∧
      entry.2 = view entry.1 (fed.foldl update first)

theorem inputs_append (id : Nat) (first second : List (Event σ ι β)) :
    inputs id (first ++ second) = inputs id first ++ inputs id second :=
  List.filterMap_append

theorem registrations_append (first second : List (Event σ ι β)) :
    registrations (first ++ second) = registrations first ++ registrations second :=
  List.filterMap_append

/-- What every visit shows. -/
theorem shows_of_visit {before during : List (Event σ ι β)} {r start last r' : Registry σ β}
    {view : Nat → σ → β} {shown : List (Nat × β)}
    (hbefore : Run (Step update) empty before r)
    (hlock : Step update r (.lock view, none) start)
    (hduring : Run (Step update) start during last)
    (hlocked : ∀ event ∈ during, event.1 ≠ .unlock)
    (hunlock : Step update last (.unlock, some shown) r') :
    Shows update view before ((.lock view, none) :: during) r r' shown := by
  obtain ⟨hordered, hcomplete, hlive, hshown, hcleared⟩ :=
    visit_shows hbefore hlock hduring hlocked hunlock
  refine ⟨hordered, hcomplete, hlive, hcleared, ?_⟩
  intro entry hentry
  obtain ⟨first, rest, t, value, rfl, hfirst, hcell, hview⟩ := hshown entry hentry
  -- The moment at which the cell is shown lies on a run from the start.
  have hmoment := hbefore.append (Run.cons hlock hfirst)
  obtain ⟨cell, hcell', hvalue⟩ := value_eq hmoment hcell
  refine ⟨cell, _, ?_, ?_, ?_, hvalue ▸ hview⟩
  · rw [← List.cons_append, ← List.append_assoc, registrations_append]
    rw [List.getElem?_append_left (List.getElem?_eq_some_iff.mp hcell').1]
    exact hcell'
  · rw [inputs_append]
    exact List.prefix_append _ _
  · rw [← List.cons_append, ← List.append_assoc, inputs_append _ (before ++ _)]
    exact List.prefix_append _ _

/-- What is shown of a cell has measured no more than there are inputs, if nothing is
measured when a cell is registered and an input is measured once at most. -/
theorem Shows.measure_le {view : Nat → σ → β} {before during : List (Event σ ι β)}
    {r r' : Registry σ β} {shown : List (Nat × β)}
    (h : Shows update view before during r r' shown) (measure : σ → Nat)
    (hregister : ∀ first ∈ registrations (before ++ during), measure first = 0)
    (hinput : ∀ s input, measure (update s input) ≤ measure s + 1) :
    ∀ entry ∈ shown, ∃ value, entry.2 = view entry.1 value ∧
      measure value ≤ (inputs entry.1 (before ++ during)).length := by
  intro entry hentry
  obtain ⟨first, fed, hfirst, -, hfed, hview⟩ := h.current entry hentry
  refine ⟨fed.foldl update first, hview, ?_⟩
  calc measure (fed.foldl update first)
      ≤ measure first + fed.length := measure_foldl_le measure hinput first fed
    _ = fed.length := by rw [hregister first (List.mem_of_getElem? hfirst), Nat.zero_add]
    _ ≤ (inputs entry.1 (before ++ during)).length := hfed.length_le

end Registry
end Foundation
end Kubert
