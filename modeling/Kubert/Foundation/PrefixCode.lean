import Mathlib.Data.List.Basic
import Mathlib.Tactic.Ring

/-!
# Codes that can be read back

A code writes a list for every value.  It is a prefix code if the list can be told
from whatever follows it: from two texts that are equal and begin with the code of a
value each, one learns that the values look the same and that the rest is the same.
`view` is what can be learned of a value, which may be less than the value.

The rules below build such codes: from lists of a fixed length, from lists that are
terminated by a mark which does not occur in them, one after the other, with an
optional value, for lists of the same length, and for lists of any length if no value
is written as nothing.
-/

namespace Kubert
namespace Foundation

universe u v w

variable {α : Type u} {β γ : Type v} {σ : Type w}

/-- The view of a value, and what follows its code, can be read back. -/
def PrefixCode (code : α → List σ) (view : α → β) : Prop :=
  ∀ a b xs ys, code a ++ xs = code b ++ ys → view a = view b ∧ xs = ys

namespace PrefixCode

/-- Lists of a fixed length. -/
theorem ofWidth {code : α → List σ} {n : ℕ} (hlength : ∀ a, (code a).length = n)
    (hinj : Function.Injective code) : PrefixCode code id := by
  intro a b xs ys heq
  have hsame : (code a).length = (code b).length := by rw [hlength, hlength]
  obtain ⟨hcode, hrest⟩ := List.append_inj heq hsame
  exact ⟨hinj hcode, hrest⟩

/-- The first mark ends a list in which it does not occur. -/
theorem append_mark_inj {l l' xs ys : List σ} {mark : σ} (hl : mark ∉ l)
    (hl' : mark ∉ l') (heq : l ++ mark :: xs = l' ++ mark :: ys) : l = l' ∧ xs = ys := by
  induction l generalizing l' with
  | nil =>
      cases l' with
      | nil => exact ⟨rfl, (List.cons.inj heq).2⟩
      | cons c l' =>
          have hc : mark = c := (List.cons.inj heq).1
          simp [hc] at hl'
  | cons c l ih =>
      cases l' with
      | nil =>
          have hc : c = mark := (List.cons.inj heq).1
          simp [hc] at hl
      | cons c' l' =>
          obtain ⟨rfl, htail⟩ := List.cons.inj heq
          obtain ⟨rfl, hrest⟩ := ih (fun h => hl (List.mem_cons_of_mem _ h))
            (fun h => hl' (List.mem_cons_of_mem _ h)) htail
          exact ⟨rfl, hrest⟩

/-- Lists that are terminated by a mark. -/
theorem terminated {body : α → List σ} {mark : σ} (hmark : ∀ a, mark ∉ body a)
    (hinj : Function.Injective body) : PrefixCode (fun a => body a ++ [mark]) id := by
  intro a b xs ys heq
  simp only [List.append_assoc, List.singleton_append] at heq
  obtain ⟨hbody, hrest⟩ := append_mark_inj (hmark a) (hmark b) heq
  exact ⟨hinj hbody, hrest⟩

/-- One code after the other. -/
theorem append {code code' : α → List σ} {view : α → β} {view' : α → γ}
    (h : PrefixCode code view) (h' : PrefixCode code' view') :
    PrefixCode (fun a => code a ++ code' a) fun a => (view a, view' a) := by
  intro a b xs ys heq
  simp only [List.append_assoc] at heq
  obtain ⟨hview, hrest⟩ := h _ _ _ _ heq
  obtain ⟨hview', htail⟩ := h' _ _ _ _ hrest
  exact ⟨Prod.ext hview hview', htail⟩

/-- The code of a part of a value. -/
theorem comap {α' : Type*} {code : α → List σ} {view : α → β} (h : PrefixCode code view)
    (part : α' → α) : PrefixCode (fun a => code (part a)) fun a => view (part a) :=
  fun _ _ _ _ heq => h _ _ _ _ heq

/-- An optional value, after a flag that says whether it is there. -/
theorem option {flag : Bool → List σ} {code : α → List σ} {view : α → β}
    (hflag : PrefixCode flag id) (h : PrefixCode code view) :
    PrefixCode (fun a : Option α =>
      match a with
      | none => flag false
      | some a => flag true ++ code a) (Option.map view) := by
  intro a b xs ys heq
  cases a with
  | none =>
      cases b with
      | none => exact ⟨rfl, (hflag _ _ _ _ heq).2⟩
      | some b =>
          rw [List.append_assoc] at heq
          exact absurd (hflag _ _ _ _ heq).1 Bool.false_ne_true
  | some a =>
      cases b with
      | none =>
          rw [List.append_assoc] at heq
          exact absurd (hflag _ _ _ _ heq).1.symm Bool.false_ne_true
      | some b =>
          simp only [List.append_assoc] at heq
          obtain ⟨hview, hrest⟩ := h _ _ _ _ (hflag _ _ _ _ heq).2
          exact ⟨congrArg some hview, hrest⟩

/-- Lists of the same length, value by value. -/
theorem flatMap {code : α → List σ} {view : α → β} (h : PrefixCode code view)
    {as bs : List α} (hlength : as.length = bs.length) {xs ys : List σ}
    (heq : as.flatMap code ++ xs = bs.flatMap code ++ ys) :
    as.map view = bs.map view ∧ xs = ys := by
  induction as generalizing bs with
  | nil =>
      obtain rfl := List.length_eq_zero_iff.mp hlength.symm
      exact ⟨rfl, heq⟩
  | cons a as ih =>
      cases bs with
      | nil => simp at hlength
      | cons b bs =>
          simp only [List.flatMap_cons, List.append_assoc] at heq
          obtain ⟨hview, hrest⟩ := h _ _ _ _ heq
          obtain ⟨hviews, htail⟩ := ih (by simpa using hlength) hrest
          simp [hview, hviews, htail]

/-- Lists of any lengths, if every value is written as something. -/
theorem map_eq_of_flatMap_eq {code : α → List σ} {view : α → β} (h : PrefixCode code view)
    (hne : ∀ a, code a ≠ []) {as bs : List α} (heq : as.flatMap code = bs.flatMap code) :
    as.map view = bs.map view := by
  induction as generalizing bs with
  | nil =>
      cases bs with
      | nil => rfl
      | cons b bs => exact absurd (List.append_eq_nil_iff.mp heq.symm).1 (hne b)
  | cons a as ih =>
      cases bs with
      | nil => exact absurd (List.append_eq_nil_iff.mp heq).1 (hne a)
      | cons b bs =>
          obtain ⟨hview, hrest⟩ := h _ _ _ _ heq
          rw [List.map_cons, List.map_cons, hview, ih hrest]

end PrefixCode

/-! ## Numbers -/

/-- The lowest bytes of a number, the lowest one first. -/
def littleEndian : ℕ → ℕ → List UInt8
  | 0, _ => []
  | width + 1, n => UInt8.ofNat n :: littleEndian width (n / 256)

@[simp] theorem length_littleEndian (width n : ℕ) : (littleEndian width n).length = width := by
  induction width generalizing n with
  | zero => rfl
  | succ width ih => simp [littleEndian, ih]

/-- A number that fits can be told from its bytes. -/
theorem littleEndian_inj {width n m : ℕ} (hn : n < 256 ^ width) (hm : m < 256 ^ width)
    (heq : littleEndian width n = littleEndian width m) : n = m := by
  induction width generalizing n m with
  | zero =>
      rw [pow_zero] at hn hm
      omega
  | succ width ih =>
      obtain ⟨hlow, hhigh⟩ := List.cons.inj heq
      have hmod : n % 256 = m % 256 := by
        have hnat := congrArg UInt8.toNat hlow
        simpa using hnat
      have hdiv : n / 256 = m / 256 := by
        rw [pow_succ] at hn hm
        exact ih (by omega) (by omega) hhigh
      omega

end Foundation
end Kubert
