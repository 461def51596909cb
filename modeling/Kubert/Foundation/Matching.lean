import Mathlib.Data.List.Induction
import Mathlib.Data.Nat.Find
import Mathlib.Data.Set.Function

/-!
# Matching what is armed with what fires

A history is a list.  To one concern, each of its elements arms something, disarms
it, fires it, or has no bearing on it.  `armedBy` is the element that has armed last,
if nothing has disarmed or fired since.

A history is well fired if nothing ever fires that is not armed, by an element that
allows it.  Then every firing is matched with the arming right before it
(`exists_matches`), and if nothing is armed at the end, this is a bijection between
the firings and those armings that are not overridden before the next firing
(`bijOn_matches`).
-/

namespace Kubert
namespace Foundation

universe u

/-- What an element of a history does. -/
inductive Mark
  | arm
  | disarm
  | fire
  | skip
deriving DecidableEq, Repr

variable {α : Type u} (mark : α → Mark)

/-- What is armed after one more element. -/
def armedNext (armed : Option α) (a : α) : Option α :=
  match mark a with
  | .arm => some a
  | .disarm | .fire => none
  | .skip => armed

/-- The element that has armed last, if nothing has disarmed or fired since. -/
def armedBy (history : List α) : Option α :=
  history.foldl (armedNext mark) none

/-- What fires is armed, by an element that allows it. -/
def WellFired (allows : α → α → Prop) (history : List α) : Prop :=
  ∀ before a after, history = before ++ a :: after → mark a = .fire →
    ∃ b, armedBy mark before = some b ∧ allows b a

/-- The element at a position is of a certain kind. -/
def MarkAt (history : List α) (i : ℕ) (m : Mark) : Prop :=
  ∃ a, history[i]? = some a ∧ mark a = m

/-- The element at the first position has armed what fires at the second. -/
structure Matches (history : List α) (j i : ℕ) : Prop where
  lt : j < i
  arm : MarkAt mark history j .arm
  fire : MarkAt mark history i .fire
  between : ∀ k a, j < k → k < i → history[k]? = some a → mark a = .skip

/-- An arming that is not followed, before the next firing, by another arming or a
disarming. -/
structure Survives (history : List α) (j : ℕ) : Prop where
  arm : MarkAt mark history j .arm
  undisturbed : ∀ k, j < k → MarkAt mark history k .arm ∨ MarkAt mark history k .disarm →
    ∃ i, j < i ∧ i < k ∧ MarkAt mark history i .fire

variable {mark} {allows : α → α → Prop} {history : List α}

theorem armedBy_concat (history : List α) (a : α) :
    armedBy mark (history ++ [a]) = armedNext mark (armedBy mark history) a := by
  simp [armedBy]

theorem armedBy_append_of_skip {after : List α} (hskip : ∀ b ∈ after, mark b = .skip) :
    armedBy mark (history ++ after) = armedBy mark history := by
  induction after using List.reverseRecOn with
  | nil => rw [List.append_nil]
  | append_singleton after b ih =>
      have hb : mark b = .skip := hskip b (by simp)
      rw [← List.append_assoc, armedBy_concat, armedNext, hb]
      exact ih fun c hc => hskip c (by simp [hc])

/-- What is armed has been armed at some point, and nothing has changed it since. -/
theorem armedBy_eq_some_iff {a : α} :
    armedBy mark history = some a ↔ ∃ before after, history = before ++ a :: after ∧
      mark a = .arm ∧ ∀ b ∈ after, mark b = .skip := by
  constructor
  · intro harmed
    induction history using List.reverseRecOn with
    | nil => cases harmed
    | append_singleton history b ih =>
        rw [armedBy_concat] at harmed
        cases hb : mark b with
        | arm =>
            rw [armedNext, hb] at harmed
            obtain rfl := Option.some.inj harmed
            exact ⟨history, [], rfl, hb, nofun⟩
        | disarm | fire =>
            rw [armedNext, hb] at harmed
            cases harmed
        | skip =>
            rw [armedNext, hb] at harmed
            obtain ⟨before, after, rfl, ha, hafter⟩ := ih harmed
            refine ⟨before, after ++ [b], by simp, ha, ?_⟩
            intro c hc
            rcases List.mem_append.mp hc with hc | hc
            · exact hafter c hc
            · rw [List.mem_singleton.mp hc]
              exact hb
  · rintro ⟨before, after, rfl, ha, hafter⟩
    rw [List.append_cons, armedBy_append_of_skip hafter, armedBy_concat, armedNext, ha]

theorem wellFired_concat (hwell : WellFired mark allows history) {a : α}
    (hfire : mark a = .fire → ∃ b, armedBy mark history = some b ∧ allows b a) :
    WellFired mark allows (history ++ [a]) := by
  intro before c after hcut hc
  rcases List.eq_nil_or_concat after with rfl | ⟨after, last, rfl⟩
  · obtain ⟨rfl, hlast⟩ := List.append_inj' hcut rfl
    obtain rfl := List.singleton_inj.mp hlast
    exact hfire hc
  · rw [List.concat_eq_append, ← List.cons_append, ← List.append_assoc] at hcut
    obtain ⟨rfl, -⟩ := List.append_inj' hcut rfl
    exact hwell before c after rfl hc

/-- A list that is cut at a position. -/
theorem eq_take_append_of_getElem? {i : ℕ} {a : α} (hget : history[i]? = some a) :
    history = history.take i ++ a :: history.drop (i + 1) := by
  obtain ⟨hi, rfl⟩ := List.getElem?_eq_some_iff.mp hget
  rw [← List.drop_eq_getElem_cons hi, List.take_append_drop]

theorem MarkAt.eq {i : ℕ} {m m' : Mark} (hm : MarkAt mark history i m)
    (hm' : MarkAt mark history i m') : m = m' := by
  obtain ⟨a, ha, rfl⟩ := hm
  obtain ⟨b, hb, rfl⟩ := hm'
  rw [ha] at hb
  rw [Option.some.inj hb]

/-- What fires has been armed, by an element that allows it. -/
theorem exists_matches (hwell : WellFired mark allows history) {i : ℕ} {a : α}
    (hget : history[i]? = some a) (ha : mark a = .fire) :
    ∃ j b, Matches mark history j i ∧ history[j]? = some b ∧ allows b a := by
  have hi : i < history.length := (List.getElem?_eq_some_iff.mp hget).1
  have hcut := eq_take_append_of_getElem? hget
  obtain ⟨b, harmed, hallows⟩ := hwell _ a _ hcut ha
  obtain ⟨before, after, htake, hb, hafter⟩ := armedBy_eq_some_iff.mp harmed
  -- The history up to the firing is `before ++ b :: after`, so `b` is at `before.length`.
  have hlen : i = before.length + (after.length + 1) := by
    have := congrArg List.length htake
    rw [List.length_take, List.length_append, List.length_cons] at this
    omega
  have hsame : ∀ k, k < i → history[k]? = (before ++ b :: after)[k]? := by
    intro k hk
    rw [← htake, List.getElem?_take_of_lt hk]
  have hgetb : history[before.length]? = some b := by
    rw [hsame _ (by omega)]
    simp
  refine ⟨before.length, b, ⟨by omega, ⟨b, hgetb, hb⟩, ⟨a, hget, ha⟩, ?_⟩, hgetb, hallows⟩
  · intro k c hlt hk hc
    rw [hsame k hk, List.getElem?_append_right (by omega)] at hc
    obtain ⟨n, hn⟩ : ∃ n, k - before.length = n + 1 := ⟨k - before.length - 1, by omega⟩
    rw [hn, List.getElem?_cons_succ] at hc
    exact hafter c (List.mem_of_getElem? hc)

/-- Nothing happens between an arming and the firing matched with it. -/
theorem Matches.not_between {j i k : ℕ} {m : Mark} (h : Matches mark history j i)
    (hm : MarkAt mark history k m) (hskip : m ≠ .skip) (hjk : j < k) : i ≤ k := by
  by_contra hki
  obtain ⟨a, ha, rfl⟩ := hm
  exact hskip (h.between k a hjk (by omega) ha)

/-- The arming of a firing survives until then. -/
theorem Matches.survives {j i : ℕ} (h : Matches mark history j i) :
    Survives mark history j := by
  refine ⟨h.arm, ?_⟩
  intro k hjk hk
  refine ⟨i, h.lt, ?_, h.fire⟩
  have hik : i ≤ k := by
    rcases hk with hk | hk
    · exact h.not_between hk nofun hjk
    · exact h.not_between hk nofun hjk
  rcases Nat.lt_or_eq_of_le hik with hlt | rfl
  · exact hlt
  · rcases hk with hk | hk
    · cases hk.eq h.fire
    · cases hk.eq h.fire

/-- Two firings are not matched with the same arming. -/
theorem Matches.unique {j i i' : ℕ} (h : Matches mark history j i)
    (h' : Matches mark history j i') : i = i' :=
  Nat.le_antisymm (h.not_between h'.fire nofun h'.lt) (h'.not_between h.fire nofun h.lt)

/-- One firing is not matched with two armings. -/
theorem Matches.unique_arm {j j' i : ℕ} (h : Matches mark history j i)
    (h' : Matches mark history j' i) : j = j' := by
  rcases Nat.lt_trichotomy j j' with hlt | heq | hlt
  · exact absurd (h.not_between h'.arm nofun hlt) (by have := h'.lt; omega)
  · exact heq
  · exact absurd (h'.not_between h.arm nofun hlt) (by have := h.lt; omega)

/-- If nothing is armed at the end, an arming that survives is followed by a
firing. -/
theorem Survives.exists_fire {j : ℕ} (hsurvives : Survives mark history j)
    (hend : armedBy mark history = none) : ∃ i, j < i ∧ MarkAt mark history i .fire := by
  by_contra hnone
  obtain ⟨a, hget, ha⟩ := hsurvives.arm
  have harmed : armedBy mark history = some a := by
    refine armedBy_eq_some_iff.mpr
      ⟨_, _, eq_take_append_of_getElem? hget, ha, ?_⟩
    intro b hb
    obtain ⟨n, hn⟩ := List.getElem?_of_mem hb
    rw [List.getElem?_drop] at hn
    -- A disturbance would have a firing before it.
    have hkill : ∀ m, mark b = m → m = .arm ∨ m = .disarm → False := by
      rintro m hm hkind
      obtain ⟨i, hji, -, hfire⟩ := hsurvives.undisturbed (j + 1 + n) (by omega)
        (hkind.imp (fun h => ⟨b, hn, hm.trans h⟩) (fun h => ⟨b, hn, hm.trans h⟩))
      exact hnone ⟨i, hji, hfire⟩
    cases hb : mark b with
    | arm => exact (hkill _ hb (.inl rfl)).elim
    | disarm => exact (hkill _ hb (.inr rfl)).elim
    | fire => exact absurd ⟨j + 1 + n, by omega, b, hn, hb⟩ hnone
    | skip => rfl
  rw [hend] at harmed
  cases harmed

/-- If nothing is armed at the end, an arming that survives is matched. -/
theorem Survives.exists_matches {j : ℕ} (hsurvives : Survives mark history j)
    (hend : armedBy mark history = none) : ∃ i, Matches mark history j i := by
  classical
  -- The first firing after the arming.
  have hexists := hsurvives.exists_fire hend
  obtain ⟨hji, hfire⟩ := Nat.find_spec hexists
  refine ⟨Nat.find hexists, hji, hsurvives.arm, hfire, ?_⟩
  intro k a hjk hk hget
  have hnofire : ∀ i, j < i → i ≤ k → ¬ MarkAt mark history i .fire := by
    intro i hlt hle h
    exact Nat.find_min hexists (by omega) ⟨hlt, h⟩
  have hkill : MarkAt mark history k .arm ∨ MarkAt mark history k .disarm → False := by
    intro hkind
    obtain ⟨i, hlt, hik, h⟩ := hsurvives.undisturbed k hjk hkind
    exact hnofire i hlt (by omega) h
  cases ha : mark a with
  | arm => exact (hkill (.inl ⟨a, hget, ha⟩)).elim
  | disarm => exact (hkill (.inr ⟨a, hget, ha⟩)).elim
  | fire => exact absurd ⟨a, hget, ha⟩ (hnofire k hjk (by omega))
  | skip => rfl

/-- If nothing is armed at the end of a well-fired history, the firings correspond
to the armings that survive. -/
theorem bijOn_matches (hwell : WellFired mark allows history)
    (hend : armedBy mark history = none) :
    ∃ armOf : ℕ → ℕ, (∀ i, MarkAt mark history i .fire → Matches mark history (armOf i) i) ∧
      Set.BijOn armOf {i | MarkAt mark history i .fire} {j | Survives mark history j} := by
  have hmatched : ∀ i, MarkAt mark history i .fire → ∃ j, Matches mark history j i := by
    rintro i ⟨a, hget, ha⟩
    obtain ⟨j, b, hmatches, -⟩ := exists_matches hwell hget ha
    exact ⟨j, hmatches⟩
  choose! armOf harm using hmatched
  refine ⟨armOf, harm, ?_, ?_, ?_⟩
  · intro i hi
    exact (harm i hi).survives
  · intro i hi i' hi' heq
    have h' := harm i' hi'
    rw [← heq] at h'
    exact (harm i hi).unique h'
  · intro j hj
    obtain ⟨i, hi⟩ := hj.exists_matches hend
    exact ⟨i, hi.fire, (harm i hi.fire).unique_arm hi⟩

end Foundation
end Kubert
