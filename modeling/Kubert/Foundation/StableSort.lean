import Mathlib.Data.List.Sort

/-!
# Sorting by a key

`sortByKey` sorts a list by a key and keeps elements with the same key in the order
in which they were.  The result therefore depends on more than the elements: two
lists with the same elements are sorted alike if their elements are told apart by
their keys, and otherwise need not be.

`map_sortByKey_eq_iff` says exactly when.  It speaks of what a function sees of the
sorted list, which may be less than the elements.
-/

namespace Kubert
namespace Foundation

universe u v w

variable {α : Type u} {β : Type v} {κ : Type w} [LinearOrder κ]

/-- A stable sort by a key. -/
def sortByKey (key : α → κ) (l : List α) : List α :=
  l.insertionSort fun a b => key a ≤ key b

section Basic

variable (key : α → κ)

theorem sortByKey_perm (l : List α) : (sortByKey key l).Perm l :=
  List.perm_insertionSort _ l

theorem sortByKey_pairwise (l : List α) :
    (sortByKey key l).Pairwise fun a b => key a ≤ key b := by
  have : Std.Total fun a b : α => key a ≤ key b := ⟨fun a b => le_total (key a) (key b)⟩
  have : IsTrans α fun a b => key a ≤ key b := ⟨fun _ _ _ => le_trans⟩
  exact List.pairwise_insertionSort _ l

/-- An element is inserted before those with the same key. -/
theorem filter_orderedInsert_key (k : κ) (a : α) (l : List α) :
    (l.orderedInsert (fun a b => key a ≤ key b) a).filter (fun b => key b = k) =
      (a :: l).filter fun b => key b = k := by
  induction l with
  | nil => simp
  | cons b l ih =>
      rw [List.orderedInsert_cons]
      by_cases hle : key a ≤ key b
      · rw [if_pos hle]
      · rw [if_neg hle, List.filter_cons, ih]
        by_cases ha : key a = k
        · have hb : key b ≠ k := by
            rintro rfl
            exact hle ha.le
          simp [ha, hb]
        · by_cases hb : key b = k <;> simp [ha, hb]

/-- The sort is stable: it does not move elements with the same key past each
other. -/
theorem filter_sortByKey (k : κ) (l : List α) :
    (sortByKey key l).filter (fun a => key a = k) = l.filter fun a => key a = k := by
  induction l with
  | nil => rfl
  | cons a l ih =>
      change (List.orderedInsert _ a (sortByKey key l)).filter _ = _
      rw [filter_orderedInsert_key, List.filter_cons, List.filter_cons, ih]

end Basic

/-- What a function sees of a sorted list does not depend on the order before the
sort if and only if it sees the same of elements with the same key. -/
theorem map_sortByKey_eq_iff {f : α → β} {key : β → κ} {l : List α} :
    (∀ l', l'.Perm l →
      (sortByKey (key ∘ f) l').map f = (sortByKey (key ∘ f) l).map f) ↔
      ∀ a ∈ l, ∀ b ∈ l, key (f a) = key (f b) → f a = f b := by
  classical
  constructor
  · intro hsame a ha b hb hkey
    by_cases hab : a = b
    · rw [hab]
    -- Put the two in front of the others, in either order.
    have hbmem : b ∈ l.erase a := (List.mem_erase_of_ne (Ne.symm hab)).mpr hb
    have hfirst : (a :: b :: (l.erase a).erase b).Perm l :=
      ((List.perm_cons_erase hbmem).cons a).symm.trans (List.perm_cons_erase ha).symm
    have hsecond : (b :: a :: (l.erase a).erase b).Perm l :=
      (List.Perm.swap a b _).trans hfirst
    have heq := (hsame _ hfirst).trans (hsame _ hsecond).symm
    have hfilter : ∀ x y rest, key (f x) = key (f b) →
        ((sortByKey (key ∘ f) (x :: y :: rest)).map f).filter
          (fun z => key z = key (f b)) =
        f x :: ((y :: rest).filter fun z => key (f z) = key (f b)).map f := by
      intro x y rest hx
      have hstable := filter_sortByKey (key ∘ f) (key (f b)) (x :: y :: rest)
      have hcomp : ((fun z => decide (key z = key (f b))) ∘ f) =
          fun z => decide ((key ∘ f) z = key (f b)) := rfl
      rw [List.filter_map, hcomp, hstable]
      simp [hx]
    have hheads := congrArg (List.filter fun z => key z = key (f b)) heq
    rw [hfilter a b _ hkey, hfilter b a _ rfl] at hheads
    exact (List.cons.inj hheads).1
  · intro hties l' hperm
    have hsorted : ∀ m : List α, ((sortByKey (key ∘ f) m).map f).Pairwise
        fun x y => key x ≤ key y := by
      intro m
      rw [List.pairwise_map]
      exact sortByKey_pairwise (key ∘ f) m
    have hmem : ∀ m : List α, m.Perm l → ∀ x ∈ (sortByKey (key ∘ f) m).map f,
        ∃ a ∈ l, f a = x := by
      intro m hm x hx
      obtain ⟨a, ha, rfl⟩ := List.mem_map.mp hx
      exact ⟨a, ((sortByKey_perm (key ∘ f) m).trans hm).mem_iff.mp ha, rfl⟩
    have hmaps : ((sortByKey (key ∘ f) l').map f).Perm
        ((sortByKey (key ∘ f) l).map f) :=
      (((sortByKey_perm _ l').trans hperm).trans (sortByKey_perm _ l).symm).map f
    refine hmaps.eq_of_pairwise ?_ (hsorted l') (hsorted l)
    intro x y hx hy hxy hyx
    obtain ⟨a, ha, rfl⟩ := hmem l' hperm x hx
    obtain ⟨b, hb, rfl⟩ := hmem l (List.Perm.refl l) y hy
    exact hties a ha b hb (le_antisymm hxy hyx)

end Foundation
end Kubert
