import Kubert.Index.Restarts

/-!
# Two names for everything

The same watch can be kept under different keys: an index knows a resource by its name,
and diagnostics know it by a reference that also has its identity.  A reference determines
the name, but an object may be replaced by another one of the same name.

As long as the name is never used for two objects at a time (`Unambiguous`), both ways
keep the same resources.  Without this they need not: what is put under a name takes the
place of what was there, and what is put under a reference does not.
-/

namespace Kubert
namespace Index

universe u v

variable {κ ι : Type u} {ρ : Type v} [DecidableEq κ] [DecidableEq ι]

/-- The resource goes by a name that nothing else has: what is under the name is the same
object. -/
def Known (name : ρ → Option κ) (reference : ρ → Option ι) (c : Contents κ ρ) (r : ρ) : Prop :=
  ∀ k old, name r = some k → c k = some old → reference old = reference r

/-- A block uses no name for two objects. -/
def Block.Unambiguous (name : ρ → Option κ) (reference : ρ → Option ι) (c : Contents κ ρ) :
    Block ρ → Prop
  | apply r => Known name reference c r
  | delete r => Known name reference c r
  | cycle rs => ∀ r ∈ rs, ∀ r' ∈ rs, name r = name r' → reference r = reference r'

/-- No block does, given what is there before it. -/
def Unambiguous (name : ρ → Option κ) (reference : ρ → Option ι) :
    Contents κ ρ → List (Block ρ) → Prop
  | _, [] => True
  | c, block :: blocks =>
      block.Unambiguous name reference c ∧ Unambiguous name reference (block.on name c) blocks

/-- Both contents have the same resources, each under its key. -/
structure SameResources (name : ρ → Option κ) (reference : ρ → Option ι) (c : Contents κ ρ)
    (d : Contents ι ρ) : Prop where
  filed : Filed name c
  filed' : Filed reference d
  same : ∀ r, (∃ k, c k = some r) ↔ ∃ o, d o = some r

section Same

variable {name : ρ → Option κ} {reference : ρ → Option ι} {c : Contents κ ρ} {d : Contents ι ρ}

/-- What is there after a change: what was put there, and what was under another key. -/
theorem exists_update {k : κ} {value : Option ρ} {r : ρ} :
    (∃ k', Function.update c k value k' = some r) ↔
      value = some r ∨ ∃ k', k' ≠ k ∧ c k' = some r := by
  constructor
  · rintro ⟨k', hr⟩
    by_cases hk : k' = k
    · subst hk
      rw [Function.update_self] at hr
      exact .inl hr
    · rw [Function.update_of_ne hk] at hr
      exact .inr ⟨k', hk, hr⟩
  · rintro (hvalue | ⟨k', hk, hr⟩)
    · exact ⟨k, by rw [Function.update_self, hvalue]⟩
    · exact ⟨k', by rw [Function.update_of_ne hk, hr]⟩

/-- Something is put under its two keys, or taken away under them. -/
theorem SameResources.update (h : SameResources name reference c d)
    (hname : ∀ r r', reference r = reference r' → name r = name r') {r : ρ} {k : κ} {o : ι}
    (hk : name r = some k) (ho : reference r = some o) (hknown : Known name reference c r)
    {value : Option ρ} (hvalue : ∀ r', value = some r' → r' = r) :
    SameResources name reference (Function.update c k value) (Function.update d o value) := by
  refine ⟨?_, ?_, ?_⟩
  · exact h.filed.update fun r' hr' => hvalue r' hr' ▸ hk
  · exact h.filed'.update fun r' hr' => hvalue r' hr' ▸ ho
  · intro r'
    rw [exists_update, exists_update]
    refine or_congr Iff.rfl ⟨?_, ?_⟩
    · rintro ⟨k', hne, hc⟩
      obtain ⟨o', hd⟩ := (h.same r').mp ⟨k', hc⟩
      refine ⟨o', ?_, hd⟩
      -- The reference determines the name.
      rintro rfl
      have hsame := hname r' r ((h.filed' o' r' hd).trans ho.symm)
      rw [h.filed k' r' hc, hk] at hsame
      exact hne (Option.some.inj hsame)
    · rintro ⟨o', hne, hd⟩
      obtain ⟨k', hc⟩ := (h.same r').mpr ⟨o', hd⟩
      refine ⟨k', ?_, hc⟩
      -- What is under the name is the same object.
      rintro rfl
      have hsame := hknown k' r' hk hc
      rw [h.filed' o' r' hd, ho] at hsame
      exact hne (Option.some.inj hsame)

theorem SameResources.put (h : SameResources name reference c d)
    (hname : ∀ r r', reference r = reference r' → name r = name r') {r : ρ}
    (hkeyed : (name r).isSome) (hkeyed' : (reference r).isSome)
    (hknown : Known name reference c r) :
    SameResources name reference (put name c r) (put reference d r) := by
  obtain ⟨k, hk⟩ := Option.isSome_iff_exists.mp hkeyed
  obtain ⟨o, ho⟩ := Option.isSome_iff_exists.mp hkeyed'
  rw [put_of_some hk, put_of_some ho]
  exact h.update hname hk ho hknown fun r' hr' => (Option.some.inj hr').symm

omit [DecidableEq κ] [DecidableEq ι] in
theorem sameResources_empty :
    SameResources name reference (fun _ => none) fun _ => none :=
  ⟨filed_empty, filed_empty, by simp⟩

/-- What is listed comes from the list. -/
theorem mem_of_listing {rs : List ρ} {k : κ} {r : ρ} (h : listing name rs k = some r) :
    r ∈ rs := by
  induction rs using List.reverseRecOn with
  | nil => cases h
  | append_singleton rs last ih =>
      rw [listing_concat] at h
      cases hkey : name last with
      | none =>
          rw [put_of_none hkey] at h
          exact List.mem_append_left _ (ih h)
      | some k' =>
          rw [put_of_some hkey] at h
          by_cases hk : k = k'
          · subst hk
            rw [Function.update_self] at h
            exact List.mem_append_right _ (List.mem_singleton.mpr (Option.some.inj h).symm)
          · rw [Function.update_of_ne hk] at h
            exact List.mem_append_left _ (ih h)

theorem sameResources_listing
    (hname : ∀ r r', reference r = reference r' → name r = name r') {rs : List ρ}
    (hkeyed : Keyed name rs) (hkeyed' : Keyed reference rs)
    (hcycle : (Block.cycle rs).Unambiguous name reference c) :
    SameResources name reference (listing name rs) (listing reference rs) := by
  induction rs using List.reverseRecOn with
  | nil => exact sameResources_empty
  | append_singleton rs r ih =>
      have hlast : r ∈ rs ++ [r] := List.mem_append_right _ (List.mem_singleton_self r)
      rw [listing_concat, listing_concat]
      refine SameResources.put (ih ?_ ?_ ?_) hname (hkeyed r hlast) (hkeyed' r hlast) ?_
      · exact fun r' hr' => hkeyed r' (List.mem_append_left _ hr')
      · exact fun r' hr' => hkeyed' r' (List.mem_append_left _ hr')
      · exact fun r' hr' r'' hr'' =>
          hcycle r' (List.mem_append_left _ hr') r'' (List.mem_append_left _ hr'')
      · intro k old hk hold
        have hfiled := filed_listing rs k old hold
        exact hcycle old (List.mem_append_left _ (mem_of_listing hold)) r hlast
          (hfiled.trans hk.symm)

theorem SameResources.block (h : SameResources name reference c d)
    (hname : ∀ r r', reference r = reference r' → name r = name r') {block : Block ρ}
    (hkeyed : Keyed name block.resources) (hkeyed' : Keyed reference block.resources)
    (hblock : block.Unambiguous name reference c) :
    SameResources name reference (block.on name c) (block.on reference d) := by
  cases block with
  | apply r =>
      have hr : r ∈ [r] := List.mem_singleton_self r
      exact h.put hname (hkeyed r hr) (hkeyed' r hr) hblock
  | delete r =>
      obtain ⟨k, hk⟩ := Option.isSome_iff_exists.mp (hkeyed r (List.mem_singleton_self r))
      obtain ⟨o, ho⟩ := Option.isSome_iff_exists.mp (hkeyed' r (List.mem_singleton_self r))
      simp only [Block.on, hk, ho, remove]
      refine h.update hname hk ho hblock fun r' hr' => ?_
      cases hr'
  | cycle rs => exact sameResources_listing hname hkeyed hkeyed' hblock

theorem SameResources.blocks {blocks : List (Block ρ)}
    (h : SameResources name reference c d)
    (hname : ∀ r r', reference r = reference r' → name r = name r')
    (hkeyed : Keyed name (blocks.flatMap Block.resources))
    (hkeyed' : Keyed reference (blocks.flatMap Block.resources))
    (hblocks : Unambiguous name reference c blocks) :
    SameResources name reference (blocks.foldl (Block.on name) c)
      (blocks.foldl (Block.on reference) d) := by
  induction blocks generalizing c d with
  | nil => exact h
  | cons block blocks ih =>
      rw [List.flatMap_cons] at hkeyed hkeyed'
      obtain ⟨hfirst, hrest⟩ := hblocks
      refine ih (h.block hname ?_ ?_ hfirst) ?_ ?_ hrest
      · exact fun r hr => hkeyed r (List.mem_append_left _ hr)
      · exact fun r hr => hkeyed' r (List.mem_append_left _ hr)
      · exact fun r hr => hkeyed r (List.mem_append_right _ hr)
      · exact fun r hr => hkeyed' r (List.mem_append_right _ hr)

/-- After blocks that are unambiguous, both ways of naming have kept the same. -/
theorem sameResources_contents {blocks : List (Block ρ)}
    (hname : ∀ r r', reference r = reference r' → name r = name r')
    (hkeyed : Keyed name (blocks.flatMap Block.resources))
    (hkeyed' : Keyed reference (blocks.flatMap Block.resources))
    (hblocks : Unambiguous name reference (fun _ => none) blocks) :
    SameResources name reference (contents name blocks) (contents reference blocks) :=
  sameResources_empty.blocks hname hkeyed hkeyed' hblocks

end Same

end Index
end Kubert
