import Kubert.Foundation.Transducer
import Kubert.Index.Contents
import Mathlib.Data.Finmap

/-!
# `index::cluster` and `index::namespaced`

Both functions turn a watch into calls on an index.  Each keeps the keys it has
seen and, during a cycle, the listed resources and the keys that have not been
listed yet.  They are transducers from events to calls; a resource without a name,
or without a namespace where one is expected, is a panic.

The index itself is a parameter of the source.  Its default `reset` is written
over the two other methods; it goes through a hash container, in an order that is
not determined, and takes the order as an argument here.
-/

namespace Kubert
namespace Index

open Foundation

universe u v

/-- `kube_runtime::watcher::Event`. -/
inductive Event (ρ : Type v)
  | apply (r : ρ)
  | delete (r : ρ)
  | init
  | initApply (r : ρ)
  | initDone
deriving DecidableEq, Repr

/-- A call on an index: `σ` is the container that `reset` is given. -/
inductive Call (κ : Type u) (σ : Type u) (ρ : Type v)
  | apply (r : ρ)
  | delete (k : κ)
  | reset (added : List ρ) (removed : σ)

/-! ## Cluster-scoped resources -/

/-- The local variables of `cluster`.  The name type is a parameter, a string in
the source. -/
structure Cluster (κ : Type u) (ρ : Type v) where
  keys : Finset κ
  resetAdded : List ρ
  resetRemoved : Finset κ

namespace Cluster

variable {κ : Type u} {ρ : Type v}

/-- Before the first event. -/
def initial : Cluster κ ρ := ⟨∅, [], ∅⟩

variable [DecidableEq κ] (name : ρ → Option κ)

/-- One round of the loop of `cluster`. -/
def step (s : Cluster κ ρ) :
    Event ρ → Option (Cluster κ ρ × List (Call κ (Finset κ) ρ))
  | .apply r => (name r).map fun n =>
      ({ s with keys := insert n s.keys }, [.apply r])
  | .delete r => (name r).map fun n =>
      ({ s with keys := s.keys.erase n }, [.delete n])
  -- `mem::take(&mut keys)`; what an unfinished cycle has collected is not cleared.
  | .init => some ({ s with keys := ∅, resetRemoved := s.keys }, [])
  | .initApply r => (name r).map fun n =>
      ({ keys := insert n s.keys
         resetAdded := s.resetAdded ++ [r]
         resetRemoved := s.resetRemoved.erase n }, [])
  | .initDone => some ({ s with resetAdded := [], resetRemoved := ∅ },
      [.reset s.resetAdded s.resetRemoved])

/-- `cluster`: the calls that a list of events leads to. -/
def run (s : Cluster κ ρ) (events : List (Event ρ)) :
    Option (Cluster κ ρ × List (Call κ (Finset κ) ρ)) :=
  Transducer.run (step name) s events

end Cluster

/-! ## Namespaced resources -/

/-- `HashMap<String, HashSet<String>>`, with the string types as parameters. -/
abbrev NameMap (ν μ : Type u) := Finmap fun _ : ν => Finset μ

namespace NameMap

variable {ν μ : Type u} [DecidableEq ν] [DecidableEq μ]

/-- `keys.entry(namespace).or_default().insert(name)`. -/
def add (m : NameMap ν μ) (namespc : ν) (name : μ) : NameMap ν μ :=
  m.insert namespc (insert name ((m.lookup namespc).getD ∅))

/-- The entry of a deleted resource loses its name, and goes when it is empty. -/
def prune (m : NameMap ν μ) (namespc : ν) (name : μ) : NameMap ν μ :=
  match m.lookup namespc with
  | none => m
  | some names =>
      if names.erase name = ∅ then m.erase namespc
      else m.insert namespc (names.erase name)

/-- The entry of a listed resource loses its name, and stays when it is empty. -/
def strike (m : NameMap ν μ) (namespc : ν) (name : μ) : NameMap ν μ :=
  match m.lookup namespc with
  | none => m
  | some names => m.insert namespc (names.erase name)

end NameMap

/-- The local variables of `namespaced`. -/
structure Namespaced (ν μ : Type u) (ρ : Type v) where
  keys : NameMap ν μ
  resetAdded : List ρ
  resetRemoved : NameMap ν μ

namespace Namespaced

variable {ν μ : Type u} {ρ : Type v}

/-- Before the first event. -/
def initial : Namespaced ν μ ρ := ⟨∅, [], ∅⟩

variable [DecidableEq ν] [DecidableEq μ] (namespaceOf : ρ → Option ν)
  (name : ρ → Option μ)

/-- The namespace and the name of a resource. -/
def keyOf (r : ρ) : Option (ν × μ) :=
  (namespaceOf r).bind fun namespc => (name r).map fun n => (namespc, n)

/-- One round of the loop of `namespaced`. -/
def step (s : Namespaced ν μ ρ) :
    Event ρ → Option (Namespaced ν μ ρ × List (Call (ν × μ) (NameMap ν μ) ρ))
  | .apply r => (keyOf namespaceOf name r).map fun k =>
      ({ s with keys := s.keys.add k.1 k.2 }, [.apply r])
  | .delete r => (keyOf namespaceOf name r).map fun k =>
      ({ s with keys := s.keys.prune k.1 k.2 }, [.delete k])
  | .init => some ({ s with keys := ∅, resetRemoved := s.keys }, [])
  | .initApply r => (keyOf namespaceOf name r).map fun k =>
      ({ keys := s.keys.add k.1 k.2
         resetAdded := s.resetAdded ++ [r]
         resetRemoved := s.resetRemoved.strike k.1 k.2 }, [])
  | .initDone => some ({ s with resetAdded := [], resetRemoved := ∅ },
      [.reset s.resetAdded s.resetRemoved])

/-- `namespaced`: the calls that a list of events leads to. -/
def run (s : Namespaced ν μ ρ) (events : List (Event ρ)) :
    Option (Namespaced ν μ ρ × List (Call (ν × μ) (NameMap ν μ) ρ)) :=
  Transducer.run (step namespaceOf name) s events

end Namespaced

/-! ## The index -/

/-- An order for iterating over a hash container, chosen anew each time. -/
structure Iteration (α : Type u) where
  order : Nat → Multiset α → List α
  coe_order : ∀ n m, (order n m : Multiset α) = m

theorem Iteration.mem_order {α : Type u} (iter : Iteration α) {n : Nat}
    {m : Multiset α} {a : α} : a ∈ iter.order n m ↔ a ∈ m := by
  rw [← Multiset.mem_coe, iter.coe_order]

/-- There is always some order. -/
noncomputable def Iteration.arbitrary (α : Type u) : Iteration α :=
  ⟨fun _ m => m.toList, fun _ m => m.coe_toList⟩

open Classical in
/-- Any list may be the order in which its elements come. -/
noncomputable def Iteration.listing {α : Type u} (l : List α) : Iteration α where
  order := fun _ m => if (l : Multiset α) = m then l else m.toList
  coe_order := by
    intro n m
    split
    · assumption
    · exact m.coe_toList

theorem Iteration.listing_order {α : Type u} (l : List α) (n : Nat) :
    (Iteration.listing l).order n (l : Multiset α) = l := by
  simp [Iteration.listing]

/-- The default `IndexClusterResource::reset`, over the methods of any index. -/
def resetCluster {ι : Type*} {κ : Type u} {ρ : Type v} (apply : ι → ρ → ι)
    (delete : ι → κ → ι) (index : ι) (added : List ρ) (removed : List κ) : ι :=
  removed.foldl delete (added.foldl apply index)

/-- The default `IndexNamespacedResource::reset`, over the methods of any
index. -/
def resetNamespaced {ι : Type*} {ν μ : Type u} {ρ : Type v} (apply : ι → ρ → ι)
    (delete : ι → ν × μ → ι) (index : ι) (added : List ρ)
    (removed : List (ν × List μ)) : ι :=
  removed.foldl
    (fun index entry =>
      entry.2.foldl (fun index name => delete index (entry.1, name)) index)
    (added.foldl apply index)

section Drive

variable {κ ν μ : Type u} {ρ : Type v} [DecidableEq κ] [DecidableEq ν]
  [DecidableEq μ]

/-- A call on the index that inserts, removes and uses the default `reset`; `n`
numbers the call. -/
def callCluster (name : ρ → Option κ) (iter : Iteration κ) (n : Nat)
    (c : Contents κ ρ) : Call κ (Finset κ) ρ → Contents κ ρ
  | .apply r => put name c r
  | .delete k => remove c k
  | .reset added removed =>
      resetCluster (put name) remove c added (iter.order n removed.val)

/-- The same for an index of namespaced resources.  The names in each namespace
are iterated over in an order of their own. -/
def callNamespaced (key : ρ → Option (ν × μ))
    (entries : Iteration (Sigma fun _ : ν => Finset μ)) (names : ν → Iteration μ)
    (n : Nat) (c : Contents (ν × μ) ρ) :
    Call (ν × μ) (NameMap ν μ) ρ → Contents (ν × μ) ρ
  | .apply r => put key c r
  | .delete k => remove c k
  | .reset added removed =>
      resetNamespaced (put key) remove c added
        ((entries.order n removed.entries).map fun entry =>
          (entry.1, (names entry.1).order n entry.2.val))

/-- A list of calls, numbered from `n` on. -/
def callAll {σ : Type u} (call : Nat → Contents κ ρ → Call κ σ ρ → Contents κ ρ) :
    Nat → Contents κ ρ → List (Call κ σ ρ) → Contents κ ρ
  | _, c, [] => c
  | n, c, a :: calls => callAll call (n + 1) (call n c a) calls

/-- The index after `cluster` has gone through the events, from an empty one;
`none` is a panic. -/
def clusterIndex (name : ρ → Option κ) (iter : Iteration κ)
    (events : List (Event ρ)) : Option (Contents κ ρ) :=
  (Cluster.initial.run name events).map fun result =>
    callAll (callCluster name iter) 0 (fun _ => none) result.2

/-- The index after `namespaced` has gone through the events, from an empty
one; `none` is a panic. -/
def namespacedIndex (namespaceOf : ρ → Option ν) (name : ρ → Option μ)
    (entries : Iteration (Sigma fun _ : ν => Finset μ)) (names : ν → Iteration μ)
    (events : List (Event ρ)) : Option (Contents (ν × μ) ρ) :=
  (Namespaced.initial.run namespaceOf name events).map fun result =>
    callAll (callNamespaced (Namespaced.keyOf namespaceOf name) entries names) 0
      (fun _ => none) result.2

end Drive

/-! ## Events -/

/-- The resource of an event. -/
def Event.resource? {ρ : Type v} : Event ρ → Option ρ
  | .apply r | .delete r | .initApply r => some r
  | .init | .initDone => none

/-- The events of a cycle that is not completed. -/
def abandonedEvents {ρ : Type v} (rs : List ρ) : List (Event ρ) :=
  .init :: rs.map .initApply

/-- The events of a block. -/
def Block.events {ρ : Type v} : Block ρ → List (Event ρ)
  | .apply r => [.apply r]
  | .delete r => [.delete r]
  | .cycle rs => abandonedEvents rs ++ [.initDone]

/-! ## Pods -/

/-- Pods, as far as they matter to an index: a namespace and a name. -/
abbrev Pod := String × String

/-- `namespace()` of a pod. -/
def podNamespace (pod : Pod) : Option String := some pod.1

/-- `name_unchecked()` of a pod. -/
def podName (pod : Pod) : Option String := some pod.2

/-- The key of a pod. -/
def podKey : Pod → Option (String × String) :=
  Namespaced.keyOf podNamespace podName

end Index
end Kubert
