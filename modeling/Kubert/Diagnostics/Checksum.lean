import Kubert.Diagnostics.Snapshot
import Kubert.Foundation.PrefixCode

/-!
# What a checksum depends on

The checksum of a watch is meant for comparing controller instances: two of them that
know the same resources should show the same one.  Between the known resources and
the checksum stands the order in which a hash map iterates, and only a stable sort by
the creation time is done about it.

The bytes that are hashed determine what is hashed of every resource, in the sorted
order (`resource_prefixCode`).  So the checksum is a function of the known resources
exactly if resources with the same creation time agree in everything that is hashed,
and the list of resources is one exactly if they are the same.
-/

namespace Kubert
namespace Diagnostics

open Foundation
open Lease (DateTime)
open Index (Iteration)

/-! ## The hashed bytes -/

/-- The mark that ends a string does not occur in UTF-8. -/
theorem mark_not_mem_utf8EncodeChar (c : Char) : (0xff : UInt8) ∉ String.utf8EncodeChar c := by
  have hsmall : ∀ n < 255, (0xff : UInt8) ≠ UInt8.ofNat n := by
    intro n hn heq
    have hnat := congrArg UInt8.toNat heq
    rw [UInt8.toNat_ofNat_of_lt' (by simp [UInt8.size]; omega)] at hnat
    simp at hnat
    omega
  unfold String.utf8EncodeChar
  simp only
  intro hmem
  split at hmem
  · simp only [List.mem_singleton] at hmem
    exact hsmall _ (by omega) hmem
  · split at hmem
    · simp only [List.mem_cons, List.not_mem_nil, or_false] at hmem
      rcases hmem with h | h
      · exact hsmall _ (by omega) h
      · exact hsmall _ (by omega) h
    · split at hmem
      · simp only [List.mem_cons, List.not_mem_nil, or_false] at hmem
        rcases hmem with h | h | h
        · exact hsmall _ (by omega) h
        · exact hsmall _ (by omega) h
        · exact hsmall _ (by omega) h
      · simp only [List.mem_cons, List.not_mem_nil, or_false] at hmem
        rcases hmem with h | h | h | h
        · exact hsmall _ (by omega) h
        · exact hsmall _ (by omega) h
        · exact hsmall _ (by omega) h
        · exact hsmall _ (by omega) h

theorem mark_not_mem_utf8 (s : String) : (0xff : UInt8) ∉ s.toUTF8.data.toList := by
  obtain ⟨chars, rfl⟩ := s.exists_eq_ofList
  have hbytes : (String.ofList chars).toUTF8.data.toList =
      chars.flatMap String.utf8EncodeChar := by
    rw [String.toUTF8_eq_toByteArray, String.toByteArray_ofList, List.utf8Encode,
      List.toList_data_toByteArray]
  rw [hbytes]
  intro hmem
  obtain ⟨c, -, hc⟩ := List.mem_flatMap.mp hmem
  exact mark_not_mem_utf8EncodeChar c hc

theorem utf8_injective : Function.Injective fun s : String => s.toUTF8.data.toList := by
  intro s s' heq
  have hdata : s.toByteArray.data = s'.toByteArray.data := Array.toList_inj.mp heq
  exact String.toByteArray_inj.mp (ByteArray.ext hdata)

namespace HashImpls

theorem str_prefixCode : PrefixCode str id :=
  PrefixCode.terminated mark_not_mem_utf8 utf8_injective

variable (h : HashImpls)

theorem optionDateTime_prefixCode : PrefixCode h.optionDateTime id := by
  have hflag : PrefixCode h.discriminant id :=
    PrefixCode.ofWidth h.length_discriminant h.discriminant_injective
  have htime : PrefixCode h.dateTime id :=
    PrefixCode.ofWidth h.length_dateTime h.dateTime_injective
  intro a b xs ys heq
  have hread := (hflag.option htime) a b xs ys (by cases a <;> cases b <;> exact heq)
  rw [Option.map_id] at hread
  exact hread

/-- What is hashed of a resource: everything but the generation. -/
def hashed (r : Resource) :
    (((Option DateTime × String) × String) × String) × String :=
  ((((r.creationTimestamp, r.name), r.namespc), r.resourceVersion), r.uid)

theorem resource_prefixCode : PrefixCode h.resource hashed :=
  ((((h.optionDateTime_prefixCode.comap Resource.creationTimestamp).append
    (str_prefixCode.comap Resource.name)).append
    (str_prefixCode.comap Resource.namespc)).append
    (str_prefixCode.comap Resource.resourceVersion)).append
    (str_prefixCode.comap Resource.uid)

/-- Every resource is written as something: a string is never written as nothing. -/
theorem resource_ne_nil (r : Resource) : h.resource r ≠ [] := by
  simp [resource, str]

/-- The number of resources is written first, in a fixed width, so that what follows can
be compared by itself. -/
theorem flatMap_eq_of_resources_eq {rs rs' : List Resource}
    (heq : h.resources rs = h.resources rs') :
    rs.flatMap h.resource = rs'.flatMap h.resource :=
  (List.append_inj heq (by rw [h.length_usize, h.length_usize])).2

/-- The resources agree in everything that is hashed. -/
structure AgreesWith (r r' : Resource) : Prop where
  creationTimestamp : r.creationTimestamp = r'.creationTimestamp
  name : r.name = r'.name
  namespc : r.namespc = r'.namespc
  resourceVersion : r.resourceVersion = r'.resourceVersion
  uid : r.uid = r'.uid

theorem hashed_eq_iff {r r' : Resource} : hashed r = hashed r' ↔ AgreesWith r r' := by
  simp only [hashed, Prod.mk.injEq]
  constructor
  · rintro ⟨⟨⟨⟨htime, hname⟩, hnamespc⟩, hversion⟩, huid⟩
    exact ⟨htime, hname, hnamespc, hversion, huid⟩
  · rintro ⟨htime, hname, hnamespc, hversion, huid⟩
    exact ⟨⟨⟨⟨htime, hname⟩, hnamespc⟩, hversion⟩, huid⟩

/-- From the hashed bytes one learns how many resources there are, and everything that
is hashed of each of them: no characters can be moved between two fields or two
resources. -/
theorem resources_agree_of_bytes_eq {rs rs' : List Resource}
    (heq : h.resources rs = h.resources rs') :
    rs.length = rs'.length ∧ List.Forall₂ AgreesWith rs rs' := by
  have hviews : rs.map hashed = rs'.map hashed :=
    h.resource_prefixCode.map_eq_of_flatMap_eq h.resource_ne_nil
      (h.flatMap_eq_of_resources_eq heq)
  constructor
  · simpa using congrArg List.length hviews
  · rw [← List.forall₂_eq_eq_eq, List.forall₂_map_left_iff, List.forall₂_map_right_iff]
      at hviews
    exact hviews.imp fun _ _ hview => hashed_eq_iff.mp hview

/-- Lists of the same length are hashed alike exactly if their resources are. -/
theorem resources_eq_iff {rs rs' : List Resource} (hlength : rs.length = rs'.length) :
    h.resources rs = h.resources rs' ↔ rs.map hashed = rs'.map hashed := by
  unfold resources
  rw [hlength, List.append_cancel_left_eq]
  constructor
  · intro heq
    have hread : rs.flatMap h.resource ++ [] = rs'.flatMap h.resource ++ [] := by
      rw [List.append_nil, List.append_nil, heq]
    exact (h.resource_prefixCode.flatMap hlength hread).1
  · intro heq
    let code : (((Option DateTime × String) × String) × String) × String → List UInt8 :=
      fun x => h.optionDateTime x.1.1.1.1 ++ str x.1.1.1.2 ++ str x.1.1.2 ++ str x.1.2 ++
        str x.2
    have hcode : ∀ rs : List Resource,
        rs.flatMap h.resource = (rs.map hashed).flatMap code := by
      intro rs
      rw [List.flatMap_map]
      rfl
    rw [hcode, hcode, heq]

end HashImpls

/-! ## The order of the iteration -/

/-- Resources are compared by their creation time alone. -/
theorem Resource.sortKey_eq_iff {r r' : Resource} :
    r.sortKey = r'.sortKey ↔ r.creationTimestamp = r'.creationTimestamp := by
  unfold Resource.sortKey
  cases r.creationTimestamp with
  | none =>
      cases r'.creationTimestamp with
      | none => simp
      | some t' => simp
  | some t =>
      cases r'.creationTimestamp with
      | none => simp
      | some t' =>
          simp only [WithBot.coe_inj, Option.some.injEq]
          constructor
          · exact DateTime.eq_of_nanos
          · rintro rfl
            rfl

/-- What a resource is sorted by is among what is hashed of it. -/
def HashImpls.hashedKey (x : (((Option DateTime × String) × String) × String) × String) :
    WithBot Int :=
  match x.1.1.1.1 with
  | none => ⊥
  | some t => (t.nanos : WithBot Int)

theorem HashImpls.sortKey_hashed (r : Resource) :
    HashImpls.hashedKey (HashImpls.hashed r) = r.sortKey := rfl

/-- Known resources with the same creation time agree in what `f` sees of them. -/
def TiesAgree {β : Type} (f : Resource → β) (known : Resources) : Prop :=
  ∀ r ∈ values known, ∀ r' ∈ values known,
    r.creationTimestamp = r'.creationTimestamp → f r = f r'

namespace WatchState

/-- What is seen of the sorted resources does not depend on the iteration exactly if
resources with the same creation time look the same. -/
theorem map_sortedResources_eq_iff {β : Type} {f : Resource → β} {key : β → WithBot Int}
    (hkey : ∀ r, key (f r) = r.sortKey) (s : WatchState) :
    (∀ s' : WatchState, s'.known = s.known → ∀ iter iter' n n',
      (s.sortedResources iter n).map f = (s'.sortedResources iter' n').map f) ↔
      TiesAgree f s.known := by
  have hcomp : key ∘ f = Resource.sortKey := funext hkey
  obtain ⟨l, hl⟩ := Quotient.exists_rep (values s.known)
  have hvalues : (l : Multiset Resource) = values s.known := hl
  have horder : ∀ (iter : Iteration Resource) n,
      (iter.order n (values s.known)).Perm l := by
    intro iter n
    rw [← Multiset.coe_eq_coe, iter.coe_order, hvalues]
  have hiff := @map_sortByKey_eq_iff _ _ _ _ f key l
  rw [hcomp] at hiff
  have hties : TiesAgree f s.known ↔
      ∀ a ∈ l, ∀ b ∈ l, key (f a) = key (f b) → f a = f b := by
    unfold TiesAgree
    rw [← hvalues]
    simp only [Multiset.mem_coe, hkey, Resource.sortKey_eq_iff]
  rw [hties, ← hiff]
  constructor
  · intro hsame l' hperm
    have heq := hsame s rfl (Iteration.listing l') (Iteration.listing l) 0 0
    have hl' : (l' : Multiset Resource) = values s.known := by
      rw [← hvalues, Multiset.coe_eq_coe]
      exact hperm
    unfold sortedResources at heq
    rw [← hl', Iteration.listing_order, hl', ← hvalues, Iteration.listing_order] at heq
    exact heq
  · intro hsame s' hknown iter iter' n n'
    unfold sortedResources
    rw [hknown, hsame _ (horder iter n), hsame _ (horder iter' n')]

theorem length_sortedResources (s : WatchState) (iter : Iteration Resource) (n : Nat) :
    (s.sortedResources iter n).length = (values s.known).card := by
  unfold sortedResources
  rw [(sortByKey_perm _ _).length_eq, ← Multiset.coe_card, iter.coe_order]

/-- Two checksums of the same resources agree exactly if what is hashed of the sorted
resources does. -/
theorem summary_checksum_eq_iff {sha256 : List UInt8 → String}
    (hsha : Function.Injective sha256) (h : HashImpls) {s s' : WatchState}
    (hknown : s'.known = s.known) (iter iter' : Iteration Resource) (n n' : Nat)
    (withResources : Bool) :
    (s.summary sha256 h iter n withResources).checksum =
        (s'.summary sha256 h iter' n' withResources).checksum ↔
      (s.sortedResources iter n).map HashImpls.hashed =
        (s'.sortedResources iter' n').map HashImpls.hashed := by
  have hlength : (s.sortedResources iter n).length = (s'.sortedResources iter' n').length := by
    rw [length_sortedResources, length_sortedResources, hknown]
  unfold summary
  simp only
  by_cases hempty : s.sortedResources iter n = []
  · have hempty' : s'.sortedResources iter' n' = [] := by
      rw [hempty] at hlength
      exact List.length_eq_zero_iff.mp hlength.symm
    rw [hempty, hempty']
    simp
  · have hempty' : s'.sortedResources iter' n' ≠ [] := by
      intro hnil
      rw [hnil] at hlength
      exact hempty (List.length_eq_zero_iff.mp hlength)
    rw [if_neg (by simpa using hempty), if_neg (by simpa using hempty'),
      Option.some.injEq, ← h.resources_eq_iff hlength]
    unfold checksum
    constructor
    · intro heq
      exact hsha (String.append_right_inj _ |>.mp heq)
    · intro heq
      rw [heq]

/-- The summaries of states with the same known resources agree exactly if resources
with the same creation time are the same.  Their checksums alone agree exactly if
such resources are the same but for the generation. -/
theorem summary_determined_iff {sha256 : List UInt8 → String}
    (hsha : Function.Injective sha256) (h : HashImpls) (s : WatchState) :
    ((∀ s' : WatchState, s'.known = s.known → ∀ iter iter' n n' withResources,
      (s.summary sha256 h iter n withResources).checksum =
        (s'.summary sha256 h iter' n' withResources).checksum ∧
      (s.summary sha256 h iter n withResources).resources =
        (s'.summary sha256 h iter' n' withResources).resources) ↔
      TiesAgree id s.known) ∧
    ((∀ s' : WatchState, s'.known = s.known → ∀ iter iter' n n' withResources,
      (s.summary sha256 h iter n withResources).checksum =
        (s'.summary sha256 h iter' n' withResources).checksum) ↔
      TiesAgree HashImpls.hashed s.known) := by
  have hlists := map_sortedResources_eq_iff (f := id) (fun _ => rfl) s
  simp only [List.map_id_fun, id_eq] at hlists
  constructor
  · rw [← hlists]
    constructor
    · intro hsame s' hknown iter iter' n n'
      exact Option.some.inj (hsame s' hknown iter iter' n n' true).2
    · intro hsame s' hknown iter iter' n n' withResources
      have heq := hsame s' hknown iter iter' n n'
      constructor
      · rw [summary_checksum_eq_iff hsha h hknown, heq]
      · unfold summary
        simp only
        rw [heq]
  · rw [← map_sortedResources_eq_iff HashImpls.sortKey_hashed s]
    constructor
    · intro hsame s' hknown iter iter' n n'
      exact (summary_checksum_eq_iff hsha h hknown iter iter' n n' false).mp
        (hsame s' hknown iter iter' n n' false)
    · intro hsame s' hknown iter iter' n n' withResources
      exact (summary_checksum_eq_iff hsha h hknown iter iter' n n' withResources).mpr
        (hsame s' hknown iter iter' n n')

end WatchState

/-! ## A 64-bit target -/

/-- The bytes on a little-endian 64-bit target.  A `NaiveDate` is written as its
year, day and flags in one `i32`; here days are numbered on from those of 1970. -/
def HashImpls.littleEndian64 : HashImpls where
  usize := fun n => littleEndian 8 n.toNat
  usizeWidth := 8
  length_usize := fun n => length_littleEndian 8 n.toNat
  usize_injective := by
    intro n m heq
    exact UInt64.toNat_inj.mp (littleEndian_inj n.toNat_lt m.toNat_lt heq)
  discriminant := fun b => littleEndian 8 b.toNat
  discriminantWidth := 8
  length_discriminant := fun b => length_littleEndian 8 b.toNat
  discriminant_injective := by
    intro b b' heq
    cases b <;> cases b' <;> first | rfl | cases heq
  dateTime := fun t =>
    littleEndian 4 ((16138266 + 16 * (t.nanos / 86400000000000)) % 4294967296).toNat ++
      littleEndian 4 (t.nanos / 1000000000 % 86400).toNat ++
      littleEndian 4 (t.nanos % 1000000000).toNat
  dateTimeWidth := 12
  length_dateTime := by simp
  dateTime_injective := by
    intro t u heq
    obtain ⟨hdate, hfrac⟩ := List.append_inj heq (by simp)
    obtain ⟨hday, hsecs⟩ := List.append_inj hdate (by simp)
    have hday := littleEndian_inj (by omega) (by omega) hday
    have hsecs := littleEndian_inj (by omega) (by omega) hsecs
    have hfrac := littleEndian_inj (by omega) (by omega) hfrac
    have hnanos : t.nanos = u.nanos := by
      have htl := t.lower
      have htu := t.upper
      have hul := u.lower
      have huu := u.upper
      omega
    exact DateTime.eq_of_nanos hnanos

/-- Bytes as a text, one character for each. -/
def latin1 (bytes : List UInt8) : String := String.ofList (bytes.map Char.ofUInt8)

theorem latin1_injective : Function.Injective latin1 := by
  have hchar : Function.Injective Char.ofUInt8 := by
    intro b b' heq
    have hval : b.toUInt32 = b'.toUInt32 := congrArg Char.val heq
    have hnat := congrArg UInt32.toNat hval
    rw [UInt8.toNat_toUInt32, UInt8.toNat_toUInt32] at hnat
    exact UInt8.toNat_inj.mp hnat
  intro bytes bytes' heq
  exact List.map_injective_iff.mpr hchar (String.ofList_injective heq)

/-- The diagnostics after pods have been created, one after the other, in the order of
the list. -/
def afterCreating (pods : List ObjectMeta) : WatchState :=
  podWatch.inspectAll podType
    (pods.map fun m => (epoch, .ok (.apply m)))

/-- The example pod, created this number of seconds after the epoch. -/
def podCreatedAt (secs : UInt8) (name : String) : ObjectMeta :=
  { examplePod name with creationTimestamp := some ⟨secs.toNat * 1000000000, by omega, by
      have hlt := secs.toNat_lt
      omega⟩ }

/-- Two pods, with these generations. -/
def podsOfGenerations (first second : Option Int64) : List Resource :=
  [{ toResource (podCreatedAt 0 "pod-0") with generation := first },
    { toResource (podCreatedAt 1 "pod-1") with generation := second }]

/-- The generations of pods are not hashed, and need not agree. -/
theorem generation_not_hashed :
    HashImpls.littleEndian64.resources (podsOfGenerations none (some 3)) =
        HashImpls.littleEndian64.resources (podsOfGenerations (some 7) none) ∧
      List.Forall₂ HashImpls.AgreesWith (podsOfGenerations none (some 3))
        (podsOfGenerations (some 7) none) := by
  have heq : HashImpls.littleEndian64.resources (podsOfGenerations none (some 3)) =
      HashImpls.littleEndian64.resources (podsOfGenerations (some 7) none) := rfl
  exact ⟨heq, (HashImpls.littleEndian64.resources_agree_of_bytes_eq heq).2⟩

/-- Two pods that were created at different times have the same summary in every
order. -/
theorem summary_determined_of_two_pods :
    TiesAgree id (afterCreating [podCreatedAt 0 "pod-0", podCreatedAt 1 "pod-1"]).known ∧
      ∀ iter iter' : Iteration Resource,
        ((afterCreating [podCreatedAt 0 "pod-0", podCreatedAt 1 "pod-1"]).summary latin1
          .littleEndian64 iter 0 true).checksum =
        ((afterCreating [podCreatedAt 1 "pod-1", podCreatedAt 0 "pod-0"]).summary latin1
          .littleEndian64 iter' 0 true).checksum := by
  have hties : TiesAgree id
      (afterCreating [podCreatedAt 0 "pod-0", podCreatedAt 1 "pod-1"]).known := by
    unfold TiesAgree
    decide
  have hknown : (afterCreating [podCreatedAt 1 "pod-1", podCreatedAt 0 "pod-0"]).known =
      (afterCreating [podCreatedAt 0 "pod-0", podCreatedAt 1 "pod-1"]).known := by
    decide
  refine ⟨hties, ?_⟩
  intro iter iter'
  exact ((WatchState.summary_determined_iff latin1_injective .littleEndian64 _).1.mpr hties
    _ hknown iter iter' 0 0 true).1

/-- Two pods that were created in the same second: in whichever order they were
created, the known resources are the same, and two orders of the iteration lead to
different checksums. -/
theorem same_second_pods_disagree :
    (afterCreating [podCreatedAt 0 "pod-1", podCreatedAt 0 "pod-0"]).known =
        (afterCreating [podCreatedAt 0 "pod-0", podCreatedAt 0 "pod-1"]).known ∧
      ∀ (sha256 : List UInt8 → String) (h : HashImpls), Function.Injective sha256 →
        ∃ iter iter' : Iteration Resource,
          ((afterCreating [podCreatedAt 0 "pod-0", podCreatedAt 0 "pod-1"]).summary sha256
            h iter 0 false).checksum ≠
          ((afterCreating [podCreatedAt 0 "pod-1", podCreatedAt 0 "pod-0"]).summary sha256
            h iter' 0 false).checksum := by
  have hknown : (afterCreating [podCreatedAt 0 "pod-1", podCreatedAt 0 "pod-0"]).known =
      (afterCreating [podCreatedAt 0 "pod-0", podCreatedAt 0 "pod-1"]).known := by
    decide
  have hvalues : values
      (afterCreating [podCreatedAt 0 "pod-0", podCreatedAt 0 "pod-1"]).known =
        ([toResource (podCreatedAt 0 "pod-0"), toResource (podCreatedAt 0 "pod-1")] :
          List Resource) := by
    decide
  have hswap : (([toResource (podCreatedAt 0 "pod-0"), toResource (podCreatedAt 0 "pod-1")] :
      List Resource) : Multiset Resource) =
        ([toResource (podCreatedAt 0 "pod-1"), toResource (podCreatedAt 0 "pod-0")] :
          List Resource) := by
    decide
  refine ⟨hknown, ?_⟩
  intro sha256 h hsha
  refine ⟨Iteration.listing [toResource (podCreatedAt 0 "pod-0"),
    toResource (podCreatedAt 0 "pod-1")], Iteration.listing [toResource
      (podCreatedAt 0 "pod-1"), toResource (podCreatedAt 0 "pod-0")], ?_⟩
  rw [Ne, WatchState.summary_checksum_eq_iff hsha h hknown]
  unfold WatchState.sortedResources
  rw [hknown, hvalues, Iteration.listing_order, hswap, Iteration.listing_order]
  decide

end Diagnostics
end Kubert
