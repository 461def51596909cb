import Kubert.Foundation.StableSort
import Kubert.Index.Tracker
import Kubert.Lease.Clock
import Mathlib.Order.WithBot

/-!
# `admin::diagnostics::watch`

Every watch of a runtime is inspected on its way: `WatchState` keeps a summary of
each resource that is known, counts events and remembers the last of each kind.
While the watcher lists resources, they are collected in a second map, and the two
are swapped when the list is complete.

`summary` is what the admin server shows of a watch.  The known resources are taken
in the order in which the hash map iterates, sorted by their creation time and
hashed.  SHA-256 is a parameter, from the written bytes to the digest in hexadecimal
digits, and so are the `Hash` implementations of the standard library and of
`chrono` that depend on the target.
-/

namespace Kubert
namespace Diagnostics

open Foundation
open Lease (DateTime)
open Index (Event Iteration)

/-! ## Data -/

/-- The metadata of a watched resource, as far as it is read. -/
structure ObjectMeta where
  creationTimestamp : Option DateTime
  name : Option String
  namespc : Option String
  resourceVersion : Option String
  generation : Option Int64
  uid : Option String
deriving DecidableEq, Repr

/-- `T::kind` and `T::api_version` of the type that is watched. -/
structure ResourceType where
  kind : String
  apiVersion : String
deriving DecidableEq, Repr

/-- `Resource`, the summarized version of a resource. -/
structure Resource where
  creationTimestamp : Option DateTime
  uid : String
  name : String
  namespc : String
  generation : Option Int64
  resourceVersion : String
deriving DecidableEq, Repr

/-- `ObjRef`, the map key for resources. -/
structure ObjRef where
  kind : String
  apiVersion : String
  namespc : Option String
  name : Option String
  uid : Option String
deriving DecidableEq, Repr

/-- `WatchError`. -/
structure WatchError where
  message : String
  timestamp : DateTime
deriving DecidableEq, Repr

/-- `WatchStats`.  The counters are `u64`s and are exact for fewer than 2^64 results
(`counted_inspectAll_le`). -/
structure WatchStats where
  creationTimestamp : DateTime
  errors : Nat
  lastError : Option WatchError
  resets : Nat
  lastResetTimestamp : Option DateTime
  applies : Nat
  lastApplyTimestamp : Option DateTime
  deletes : Nat
  lastDeleteTimestamp : Option DateTime
deriving DecidableEq, Repr

/-- `AHashMap<ObjRef, Resource>`. -/
abbrev Resources := Finmap fun _ : ObjRef => Resource

/-- `WatchState`. -/
structure WatchState where
  apiUrl : String
  labelSelector : String
  stats : WatchStats
  known : Resources
  resetting : Resources

/-- `WatchSummary`. -/
structure WatchSummary where
  apiUrl : String
  labelSelector : String
  stats : WatchStats
  checksum : Option String
  resources : Option (List Resource)

/-! ## `inspect` -/

/-- `to_key`. -/
def ResourceType.toKey (t : ResourceType) (m : ObjectMeta) : ObjRef where
  kind := t.kind
  apiVersion := t.apiVersion
  namespc := m.namespc
  name := m.name
  uid := m.uid

/-- `to_resource`. -/
def toResource (m : ObjectMeta) : Resource where
  creationTimestamp := m.creationTimestamp
  name := m.name.getD ""
  namespc := m.namespc.getD ""
  resourceVersion := m.resourceVersion.getD ""
  generation := m.generation
  uid := m.uid.getD ""

/-- A result of the watcher, with the text of an error. -/
abbrev WatchResult := Except String (Event ObjectMeta)

namespace WatchState

/-- `WatchDiagnostics::new`. -/
def new (apiUrl : String) (labelSelector : Option String) (now : DateTime) :
    WatchState where
  apiUrl := apiUrl
  labelSelector := labelSelector.getD ""
  stats := ⟨now, 0, none, 0, none, 0, none, 0, none⟩
  known := ∅
  resetting := ∅

/-- `WatchDiagnostics::inspect`, at a clock reading. -/
def inspect (t : ResourceType) (now : DateTime) (s : WatchState) :
    WatchResult → WatchState
  | .ok .init => { s with resetting := ∅ }
  | .ok (.initApply m) =>
      { s with resetting := s.resetting.insert (t.toKey m) (toResource m) }
  | .ok .initDone =>
      -- `mem::swap`: the old resources stay in `resetting` until the next `Init`.
      { s with
        known := s.resetting
        resetting := s.known
        stats := { s.stats with
          resets := s.stats.resets + 1
          lastResetTimestamp := some now } }
  | .ok (.apply m) =>
      { s with
        known := s.known.insert (t.toKey m) (toResource m)
        stats := { s.stats with
          applies := s.stats.applies + 1
          lastApplyTimestamp := some now } }
  | .ok (.delete m) =>
      { s with
        known := s.known.erase (t.toKey m)
        stats := { s.stats with
          deletes := s.stats.deletes + 1
          lastDeleteTimestamp := some now } }
  | .error message =>
      { s with stats := { s.stats with
          errors := s.stats.errors + 1
          lastError := some ⟨message, now⟩ } }

/-- All results of a watch, each with the clock reading at which it comes. -/
def inspectAll (t : ResourceType) (s : WatchState)
    (results : List (DateTime × WatchResult)) : WatchState :=
  results.foldl (fun s result => s.inspect t result.1 result.2) s

theorem inspectAll_append (t : ResourceType) (s : WatchState)
    (first second : List (DateTime × WatchResult)) :
    s.inspectAll t (first ++ second) = (s.inspectAll t first).inspectAll t second :=
  List.foldl_append

end WatchState

/-- All that was counted. -/
def WatchStats.counted (stats : WatchStats) : Nat :=
  stats.errors + stats.resets + stats.applies + stats.deletes

theorem WatchStats.errors_le_counted (stats : WatchStats) : stats.errors ≤ stats.counted := by
  unfold counted
  omega

namespace WatchState

/-- A result is counted once at most. -/
theorem counted_inspect_le (t : ResourceType) (now : DateTime) (s : WatchState)
    (result : WatchResult) : (s.inspect t now result).stats.counted ≤ s.stats.counted + 1 := by
  rcases result with message | event
  · simp only [inspect, WatchStats.counted]
    omega
  · cases event with
    | init | initApply => exact Nat.le_succ _
    | initDone | apply | delete =>
        simp only [inspect, WatchStats.counted]
        omega

theorem counted_inspectAll_le (t : ResourceType) (s : WatchState)
    (results : List (DateTime × WatchResult)) :
    (s.inspectAll t results).stats.counted ≤ s.stats.counted + results.length := by
  unfold inspectAll
  refine measure_foldl_le (fun s : WatchState => s.stats.counted) ?_ s results
  exact fun s result => s.counted_inspect_le t result.1 result.2

end WatchState

/-! ## What is hashed -/

/-- The bytes that `Hash` implementations write which differ between targets: a
length, the discriminant of an `Option`, and a `DateTime<Utc>`.  Each writes a fixed
number of bytes from which the value can be told. -/
structure HashImpls where
  usize : UInt64 → List UInt8
  usizeWidth : Nat
  length_usize : ∀ n, (usize n).length = usizeWidth
  usize_injective : Function.Injective usize
  discriminant : Bool → List UInt8
  discriminantWidth : Nat
  length_discriminant : ∀ b, (discriminant b).length = discriminantWidth
  discriminant_injective : Function.Injective discriminant
  dateTime : DateTime → List UInt8
  dateTimeWidth : Nat
  length_dateTime : ∀ t, (dateTime t).length = dateTimeWidth
  dateTime_injective : Function.Injective dateTime

namespace HashImpls

variable (h : HashImpls)

/-- `Hash for str`: the bytes and one that does not occur in UTF-8. -/
def str (s : String) : List UInt8 := s.toUTF8.data.toList ++ [0xff]

/-- `Hash for Option<&DateTime<Utc>>`. -/
def optionDateTime : Option DateTime → List UInt8
  | none => h.discriminant false
  | some t => h.discriminant true ++ h.dateTime t

/-- `Hash for Resource`, which leaves the generation out. -/
def resource (r : Resource) : List UInt8 :=
  h.optionDateTime r.creationTimestamp ++ str r.name ++ str r.namespc ++
    str r.resourceVersion ++ str r.uid

/-- `Hash for Vec<Resource>`. -/
def resources (rs : List Resource) : List UInt8 :=
  h.usize (UInt64.ofNat rs.length) ++ rs.flatMap h.resource

end HashImpls

/-- `checksum`. -/
def checksum (sha256 : List UInt8 → String) (h : HashImpls) (rs : List Resource) :
    String :=
  "sha256:" ++ sha256 (h.resources rs)

/-! ## `summary` -/

/-- What `sort_by_key` compares: resources without a creation time come first. -/
def Resource.sortKey (r : Resource) : WithBot Int :=
  match r.creationTimestamp with
  | none => ⊥
  | some t => (t.nanos : WithBot Int)

/-- The known resources, without the keys of the map. -/
def values (known : Resources) : Multiset Resource := known.entries.map Sigma.snd

theorem mem_values {known : Resources} {r : Resource} :
    r ∈ values known ↔ ∃ k, known.lookup k = some r := by
  unfold values
  rw [Multiset.mem_map]
  constructor
  · rintro ⟨⟨k, r⟩, hmem, rfl⟩
    exact ⟨k, Finmap.mem_lookup_iff.mpr hmem⟩
  · rintro ⟨k, hlookup⟩
    exact ⟨⟨k, r⟩, Finmap.mem_lookup_iff.mp hlookup, rfl⟩

namespace WatchState

/-- The sorted resources of a summary; `n` numbers the iteration over the map. -/
def sortedResources (iter : Iteration Resource) (n : Nat) (s : WatchState) :
    List Resource :=
  sortByKey Resource.sortKey (iter.order n (values s.known))

/-- `WatchState::summary`. -/
def summary (sha256 : List UInt8 → String) (h : HashImpls) (iter : Iteration Resource)
    (n : Nat) (s : WatchState) (withResources : Bool) : WatchSummary where
  apiUrl := s.apiUrl
  labelSelector := s.labelSelector
  stats := s.stats
  checksum :=
    if (s.sortedResources iter n).isEmpty then none
    else some (Diagnostics.checksum sha256 h (s.sortedResources iter n))
  resources := if withResources then some (s.sortedResources iter n) else none

theorem mem_sortedResources {iter : Iteration Resource} {n : Nat} {s : WatchState}
    {r : Resource} :
    r ∈ s.sortedResources iter n ↔ ∃ k, s.known.lookup k = some r := by
  unfold sortedResources
  rw [(sortByKey_perm _ _).mem_iff, iter.mem_order, mem_values]

end WatchState

end Diagnostics
end Kubert
