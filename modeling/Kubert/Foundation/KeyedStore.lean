import Mathlib.Combinatorics.Enumerative.DoubleCounting
import Mathlib.Data.Finmap

/-!
# Finite maps kept under keys

A finite map from `α` to `β` can be kept in two containers: a store, which holds the
pairs under keys of its own choosing, and an index from `α` to these keys.  `Keyed`
says that a store and an index keep a given map.

The rules below are the ways in which the two containers are changed together: a
pair is put under the key that the index has for it or under a key that is not in
use, and an element is erased from the index while its key is erased from the store.
-/

namespace Kubert
namespace Foundation

universe u v w

section Lookup

variable {α : Type u} {β : Type v} [DecidableEq α]

/-- A finite map without keys is empty. -/
theorem keys_eq_empty_iff {m : Finmap fun _ : α => β} : m.keys = ∅ ↔ m = ∅ := by
  constructor
  · intro hkeys
    refine Finmap.ext_lookup fun a => ?_
    rw [Finmap.lookup_empty, Finmap.lookup_eq_none, ← Finmap.mem_keys, hkeys]
    exact Finset.notMem_empty a
  · intro hempty
    rw [hempty, Finmap.keys_empty]

theorem lookup_erase_eq_some_iff {m : Finmap fun _ : α => β} {a a' : α} {b : β} :
    (m.erase a).lookup a' = some b ↔ a' ≠ a ∧ m.lookup a' = some b := by
  by_cases ha : a' = a
  · subst ha
    simp
  · simp [Finmap.lookup_erase_ne ha, ha]

theorem lookup_insert_eq_some_iff {m : Finmap fun _ : α => β} {a a' : α} {b b' : β} :
    (m.insert a b).lookup a' = some b' ↔
      (a' = a ∧ b' = b) ∨ (a' ≠ a ∧ m.lookup a' = some b') := by
  by_cases ha : a' = a
  · subst ha
    simp [eq_comm]
  · simp [Finmap.lookup_insert_of_ne m ha, ha]

/-- Two finite maps with the same pairs are equal. -/
theorem eq_of_lookup_eq_some_iff {m m' : Finmap fun _ : α => β}
    (hsame : ∀ a b, m.lookup a = some b ↔ m'.lookup a = some b) : m = m' :=
  Finmap.ext_lookup fun a => Option.ext (hsame a)

end Lookup

variable {α : Type u} {β : Type v} {κ : Type w} [DecidableEq α] [DecidableEq κ]

/-- The store and the index keep the map. -/
structure Keyed (index : Finmap fun _ : α => κ) (store : Finmap fun _ : κ => α × β)
    (map : Finmap fun _ : α => β) : Prop where
  indexed : ∀ a k, index.lookup a = some k ↔ ∃ b, store.lookup k = some (a, b)
  kept : ∀ a b, map.lookup a = some b ↔ ∃ k, store.lookup k = some (a, b)

namespace Keyed

variable {index : Finmap fun _ : α => κ} {store : Finmap fun _ : κ => α × β}
  {map : Finmap fun _ : α => β}

theorem empty : Keyed (∅ : Finmap fun _ : α => κ) (∅ : Finmap fun _ : κ => α × β) ∅ := by
  constructor <;> simp

/-- An indexed element is stored, with its value, under its key. -/
theorem exists_stored (h : Keyed index store map) {a : α} {k : κ}
    (hindex : index.lookup a = some k) :
    ∃ b, store.lookup k = some (a, b) ∧ map.lookup a = some b := by
  obtain ⟨b, hstore⟩ := (h.indexed a k).mp hindex
  exact ⟨b, hstore, (h.kept a b).mpr ⟨k, hstore⟩⟩

/-- An element has no value if it is not indexed. -/
theorem lookup_eq_none (h : Keyed index store map) {a : α}
    (hindex : index.lookup a = none) : map.lookup a = none := by
  cases hmap : map.lookup a with
  | none => rfl
  | some b =>
      obtain ⟨k, hstore⟩ := (h.kept a b).mp hmap
      rw [(h.indexed a k).mpr ⟨b, hstore⟩] at hindex
      cases hindex

/-- An element is stored under one key. -/
theorem key_unique (h : Keyed index store map) {a : α} {k k' : κ} {b b' : β}
    (hk : store.lookup k = some (a, b)) (hk' : store.lookup k' = some (a, b')) : k = k' := by
  have hindex := (h.indexed a k).mpr ⟨b, hk⟩
  rw [(h.indexed a k').mpr ⟨b', hk'⟩] at hindex
  exact (Option.some.inj hindex).symm

/-- As many elements are indexed as pairs are stored. -/
theorem card_eq (h : Keyed index store map) : index.keys.card = store.keys.card := by
  refine le_antisymm
    (Finset.card_le_card_of_forall_subsingleton (fun a k => index.lookup a = some k) ?_ ?_)
    (Finset.card_le_card_of_forall_subsingleton (fun k a => index.lookup a = some k) ?_ ?_)
  · intro a ha
    obtain ⟨k, hindex⟩ := Finmap.mem_iff.mp (Finmap.mem_keys.mp ha)
    obtain ⟨b, hstore⟩ := (h.indexed a k).mp hindex
    exact ⟨k, Finmap.mem_keys.mpr (Finmap.mem_of_lookup_eq_some hstore), hindex⟩
  · rintro k - a ⟨-, ha⟩ a' ⟨-, ha'⟩
    obtain ⟨b, hstore⟩ := (h.indexed a k).mp ha
    obtain ⟨b', hstore'⟩ := (h.indexed a' k).mp ha'
    rw [hstore] at hstore'
    exact congrArg Prod.fst (Option.some.inj hstore')
  · intro k hk
    obtain ⟨⟨a, b⟩, hstore⟩ := Finmap.mem_iff.mp (Finmap.mem_keys.mp hk)
    have hindex := (h.indexed a k).mpr ⟨b, hstore⟩
    exact ⟨a, Finmap.mem_keys.mpr (Finmap.mem_of_lookup_eq_some hindex), hindex⟩
  · rintro a - k ⟨-, hk⟩ k' ⟨-, hk'⟩
    rw [hk] at hk'
    exact Option.some.inj hk'

/-- The index is empty exactly if the map is. -/
theorem index_eq_empty_iff (h : Keyed index store map) : index = ∅ ↔ map = ∅ := by
  constructor
  · intro hindex
    refine Finmap.ext_lookup fun a => ?_
    rw [h.lookup_eq_none (by rw [hindex, Finmap.lookup_empty]), Finmap.lookup_empty]
  · intro hmap
    refine Finmap.ext_lookup fun a => ?_
    rw [Finmap.lookup_empty]
    cases hindex : index.lookup a with
    | none => rfl
    | some k =>
        obtain ⟨b, -, hb⟩ := h.exists_stored hindex
        rw [hmap, Finmap.lookup_empty] at hb
        cases hb

/-- The store is empty exactly if the map is. -/
theorem store_eq_empty_iff (h : Keyed index store map) : store = ∅ ↔ map = ∅ := by
  rw [← h.index_eq_empty_iff]
  constructor
  · intro hstore
    refine Finmap.ext_lookup fun a => ?_
    rw [Finmap.lookup_empty]
    cases hindex : index.lookup a with
    | none => rfl
    | some k =>
        obtain ⟨b, hb, -⟩ := h.exists_stored hindex
        rw [hstore, Finmap.lookup_empty] at hb
        cases hb
  · intro hindex
    refine Finmap.ext_lookup fun k => ?_
    rw [Finmap.lookup_empty]
    cases hstore : store.lookup k with
    | none => rfl
    | some e =>
        have ha := (h.indexed e.1 k).mpr ⟨e.2, hstore⟩
        rw [hindex, Finmap.lookup_empty] at ha
        cases ha

/-- Put a pair under a key that belongs to its element or to nothing. -/
theorem put (h : Keyed index store map) {a : α} {k : κ} {b : β}
    (hkey : ∀ a' b', store.lookup k = some (a', b') → a' = a)
    (hown : ∀ k', index.lookup a = some k' → k' = k) :
    Keyed (index.insert a k) (store.insert k (a, b)) (map.insert a b) := by
  constructor
  · intro a' k'
    rw [lookup_insert_eq_some_iff]
    constructor
    · rintro (⟨rfl, rfl⟩ | ⟨hne, hindex⟩)
      · exact ⟨b, Finmap.lookup_insert store⟩
      · obtain ⟨b', hstore⟩ := (h.indexed a' k').mp hindex
        -- Another element is not stored under this key.
        refine ⟨b', lookup_insert_eq_some_iff.mpr (.inr ⟨?_, hstore⟩)⟩
        rintro rfl
        exact hne (hkey a' b' hstore)
    · rintro ⟨b', hstore⟩
      rcases lookup_insert_eq_some_iff.mp hstore with ⟨rfl, hpair⟩ | ⟨hne, hold⟩
      · cases hpair
        exact .inl ⟨rfl, rfl⟩
      · have hindex := (h.indexed a' k').mpr ⟨b', hold⟩
        refine .inr ⟨?_, hindex⟩
        rintro rfl
        exact hne (hown k' hindex)
  · intro a' b'
    rw [lookup_insert_eq_some_iff]
    constructor
    · rintro (⟨rfl, rfl⟩ | ⟨hne, hmap⟩)
      · exact ⟨k, Finmap.lookup_insert store⟩
      · obtain ⟨k', hstore⟩ := (h.kept a' b').mp hmap
        refine ⟨k', lookup_insert_eq_some_iff.mpr (.inr ⟨?_, hstore⟩)⟩
        rintro rfl
        exact hne (hkey a' b' hstore)
    · rintro ⟨k', hstore⟩
      rcases lookup_insert_eq_some_iff.mp hstore with ⟨rfl, hpair⟩ | ⟨hne, hold⟩
      · cases hpair
        exact .inl ⟨rfl, rfl⟩
      · refine .inr ⟨?_, (h.kept a' b').mpr ⟨k', hold⟩⟩
        rintro rfl
        exact hne (hown k' ((h.indexed a' k').mpr ⟨b', hold⟩))

/-- Put a new value under the key that the index has for an element. -/
theorem reset (h : Keyed index store map) {a : α} {k : κ} (b : β)
    (hindex : index.lookup a = some k) :
    Keyed index (store.insert k (a, b)) (map.insert a b) := by
  have hsame : index.insert a k = index := by
    refine eq_of_lookup_eq_some_iff fun a' k' => ?_
    rw [lookup_insert_eq_some_iff]
    by_cases ha : a' = a
    · subst ha
      simp [hindex, eq_comm]
    · simp [ha]
  rw [← hsame]
  obtain ⟨old, hstore, -⟩ := h.exists_stored hindex
  refine h.put ?_ ?_
  · intro a' b' hlookup
    rw [hstore] at hlookup
    cases hlookup
    rfl
  · intro k' hlookup
    rw [hindex] at hlookup
    exact (Option.some.inj hlookup).symm

/-- Put the pair of an element that is not indexed under a key that is not in use. -/
theorem insert (h : Keyed index store map) {a : α} {k : κ} (b : β)
    (hindex : index.lookup a = none) (hfresh : k ∉ store) :
    Keyed (index.insert a k) (store.insert k (a, b)) (map.insert a b) := by
  refine h.put ?_ ?_
  · intro a' b' hlookup
    exact absurd (Finmap.mem_of_lookup_eq_some hlookup) hfresh
  · intro k' hlookup
    rw [hindex] at hlookup
    cases hlookup

/-- Erase an element from the index and its key from the store. -/
theorem erase (h : Keyed index store map) {a : α} {k : κ}
    (hindex : index.lookup a = some k) :
    Keyed (index.erase a) (store.erase k) (map.erase a) := by
  obtain ⟨old, hold, -⟩ := h.exists_stored hindex
  -- A stored pair is under the erased key exactly if it is of the erased element.
  have hother : ∀ a' k' b', store.lookup k' = some (a', b') → (k' ≠ k ↔ a' ≠ a) := by
    intro a' k' b' hstore
    refine not_congr ⟨?_, ?_⟩
    · rintro rfl
      rw [hold] at hstore
      cases hstore
      rfl
    · rintro rfl
      have hindex' := (h.indexed a' k').mpr ⟨b', hstore⟩
      rw [hindex] at hindex'
      exact (Option.some.inj hindex').symm
  constructor
  · intro a' k'
    simp only [lookup_erase_eq_some_iff, h.indexed]
    constructor
    · rintro ⟨hne, b', hstore⟩
      exact ⟨b', (hother a' k' b' hstore).mpr hne, hstore⟩
    · rintro ⟨b', hne, hstore⟩
      exact ⟨(hother a' k' b' hstore).mp hne, b', hstore⟩
  · intro a' b'
    simp only [lookup_erase_eq_some_iff, h.kept]
    constructor
    · rintro ⟨hne, k', hstore⟩
      exact ⟨k', (hother a' k' b' hstore).mpr hne, hstore⟩
    · rintro ⟨k', hne, hstore⟩
      exact ⟨(hother a' k' b' hstore).mp hne, k', hstore⟩

/-- Erasing an element that is not indexed changes nothing. -/
theorem erase_eq_self (h : Keyed index store map) {a : α}
    (hindex : index.lookup a = none) : map.erase a = map := by
  refine eq_of_lookup_eq_some_iff fun a' b => ?_
  rw [lookup_erase_eq_some_iff]
  constructor
  · exact And.right
  · intro hmap
    refine ⟨?_, hmap⟩
    rintro rfl
    rw [h.lookup_eq_none hindex] at hmap
    cases hmap

end Keyed
end Foundation
end Kubert
