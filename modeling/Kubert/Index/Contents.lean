import Mathlib.Data.Finset.Dedup
import Mathlib.Data.Finset.Lattice.Lemmas
import Mathlib.Data.Finset.SDiff
import Mathlib.Data.List.Basic

/-!
# What an index is meant to contain

Resources live under keys.  The contents of an index are a partial function from
keys to resources, changed by putting a resource under its key and by removing a
key.  `listing` is what a complete list of resources means: the last one listed
under a key wins.

A watch is a sequence of blocks.  An update is a block of its own, and so is a
complete list, which replaces everything.  `contents` is the reference: what is
there after a sequence of blocks.
-/

namespace Kubert
namespace Index

universe u v

variable {κ : Type u} {ρ : Type v}

/-- The contents of an index. -/
abbrev Contents (κ : Type u) (ρ : Type v) := κ → Option ρ

variable [DecidableEq κ] (key : ρ → Option κ)

/-- Put a resource under its key. -/
def put (c : Contents κ ρ) (r : ρ) : Contents κ ρ :=
  match key r with
  | none => c
  | some k => Function.update c k (some r)

/-- Remove a key. -/
def remove (c : Contents κ ρ) (k : κ) : Contents κ ρ :=
  Function.update c k none

/-- The contents that a list of resources stands for. -/
def listing (rs : List ρ) : Contents κ ρ :=
  rs.foldl (put key) fun _ => none

/-- The keys under which resources are listed. -/
def keysOf (rs : List ρ) : Finset κ :=
  (rs.filterMap key).toFinset

variable {key}

theorem mem_keysOf {rs : List ρ} {k : κ} :
    k ∈ keysOf key rs ↔ ∃ r ∈ rs, key r = some k := by
  simp [keysOf]

theorem keysOf_append (rs ss : List ρ) :
    keysOf key (rs ++ ss) = keysOf key rs ∪ keysOf key ss := by
  ext k
  simp only [Finset.mem_union, mem_keysOf, List.mem_append, or_and_right, exists_or]

theorem put_of_none {r : ρ} (hkey : key r = none) (c : Contents κ ρ) :
    put key c r = c := by
  simp [put, hkey]

theorem put_of_some {r : ρ} {k : κ} (hkey : key r = some k) (c : Contents κ ρ) :
    put key c r = Function.update c k (some r) := by
  simp [put, hkey]

theorem listing_concat (rs : List ρ) (r : ρ) :
    listing key (rs ++ [r]) = put key (listing key rs) r := by
  unfold listing
  rw [List.foldl_append]
  rfl

/-- Putting a list of resources overrides what was there. -/
theorem foldl_put (c : Contents κ ρ) (rs : List ρ) (k : κ) :
    rs.foldl (put key) c k = (listing key rs k).or (c k) := by
  induction rs using List.reverseRecOn with
  | nil => rfl
  | append_singleton rs r ih =>
      rw [listing_concat, List.foldl_append]
      change put key (rs.foldl (put key) c) r k = _
      cases hkey : key r with
      | none =>
          rw [put_of_none hkey, put_of_none hkey]
          exact ih
      | some k' =>
          rw [put_of_some hkey, put_of_some hkey]
          by_cases hk : k = k'
          · subst hk
            simp
          · rw [Function.update_of_ne hk, Function.update_of_ne hk]
            exact ih

/-- Removing keys one after the other, in whatever order they come. -/
theorem foldl_remove (c : Contents κ ρ) (ks : List κ) (k : κ) :
    ks.foldl remove c k = if k ∈ ks then none else c k := by
  induction ks generalizing c with
  | nil => simp
  | cons k' ks ih =>
      rw [List.foldl_cons, ih]
      by_cases hk : k = k'
      · subst hk
        simp [remove]
      · simp [remove, hk]

/-- The listed keys are the keys of the listing. -/
theorem isSome_listing_iff {rs : List ρ} {k : κ} :
    (listing key rs k).isSome ↔ k ∈ keysOf key rs := by
  induction rs using List.reverseRecOn with
  | nil => simp [listing, keysOf]
  | append_singleton rs r ih =>
      rw [listing_concat, keysOf_append, Finset.mem_union, ← ih]
      cases hkey : key r with
      | none =>
          rw [put_of_none hkey]
          simp [keysOf, hkey]
      | some k' =>
          rw [put_of_some hkey]
          by_cases hk : k = k'
          · subst hk
            simp [keysOf, hkey]
          · rw [Function.update_of_ne hk]
            simp [keysOf, hkey, hk]

theorem listing_eq_none_iff {rs : List ρ} {k : κ} :
    listing key rs k = none ↔ k ∉ keysOf key rs := by
  rw [← isSome_listing_iff]
  simp

/-- Of two lists the second one wins. -/
theorem listing_append (rs ss : List ρ) (k : κ) :
    listing key (rs ++ ss) k = (listing key ss k).or (listing key rs k) := by
  rw [← foldl_put]
  unfold listing
  rw [List.foldl_append]

/-! ## Blocks of a watch -/

/-- The blocks that a well-behaved watch is made of. -/
inductive Block (ρ : Type v)
  | apply (r : ρ)
  | delete (r : ρ)
  | cycle (rs : List ρ)

namespace Block

/-- The resources that a block mentions. -/
def resources : Block ρ → List ρ
  | apply r => [r]
  | delete r => [r]
  | cycle rs => rs

variable (key)

/-- What a block does to the reference contents. -/
def on (c : Contents κ ρ) : Block ρ → Contents κ ρ
  | apply r => put key c r
  | delete r =>
      match key r with
      | none => c
      | some k => remove c k
  | cycle rs => listing key rs

end Block

variable (key)

/-- The reference contents after a sequence of blocks, from an empty index. -/
def contents (blocks : List (Block ρ)) : Contents κ ρ :=
  blocks.foldl (Block.on key) fun _ => none

/-- Every resource that occurs has a key. -/
def Keyed (rs : List ρ) : Prop := ∀ r ∈ rs, (key r).isSome

end Index
end Kubert
