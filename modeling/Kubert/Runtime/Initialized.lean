import Kubert.Foundation.LabelledRun
import Kubert.Foundation.Population
import Kubert.Runtime.Semaphore
import Kubert.Stream.Adapters

/-!
# `initialized`

`Initialized` grants handles, and waits for all of them to be dropped.  A handle is a
permit of a semaphore: `add_handle` adds a permit and acquires it at once, a handle
that is dropped gives it back, and `initialized` acquires as many permits as were
issued.

`Barrier` is an `Initialized` together with whatever holds its handles: the handle
itself, or a `ReleasesOnReady` around a future or a stream.  What is inside of these
answers as it likes.  In every run the permits that are available and the handles that
are live add up to the ones that were issued (`Balanced`), from which the rest
follows.
-/

namespace Kubert
namespace Runtime

open Foundation
open Kubert.Stream (ReleasesOnReady Next)

/-! ## `Initialized` -/

/-- `Initialized`. -/
structure Initialized (S : Semaphore) where
  semaphore : S.Sem
  issued : UInt32

namespace Initialized

variable {S : Semaphore}

/-- `Initialized::default`. -/
def default (S : Semaphore) : Initialized S := ⟨S.new 0, 0⟩

/-- `Initialized::add_handle`; `none` is the panic if no permit is issued. -/
def addHandle (x : Initialized S) : Option (Initialized S) :=
  (S.tryAcquireOwned (S.addPermits x.semaphore 1)).map fun semaphore =>
    ⟨semaphore, x.issued + 1⟩

/-- A `Handle` is dropped. -/
def dropHandle (x : Initialized S) : Initialized S :=
  { x with semaphore := S.release x.semaphore 1 }

/-- A poll of the future of `Initialized::initialized`, which drops its permits as it
returns. -/
def poll (x : Initialized S) : Initialized S × Poll Unit :=
  match S.pollAcquireMany x.semaphore x.issued with
  | (semaphore, .pending) => ({ x with semaphore := semaphore }, .pending)
  | (semaphore, .ready ()) =>
      ({ x with semaphore := S.release semaphore x.issued.toNat }, .ready ())

/-- The future of `Initialized::initialized` is dropped. -/
def cancel (x : Initialized S) : Initialized S :=
  { x with semaphore := S.cancelAcquireMany x.semaphore }

end Initialized

namespace Initialized

variable {S : Semaphore} (hlawful : S.Lawful) (x : Initialized S)
include hlawful

/-- While nobody waits, `add_handle` gets its permit. -/
theorem addHandle_eq (hwaiting : S.waiting x.semaphore = false) :
    ∃ semaphore, x.addHandle = some ⟨semaphore, x.issued + 1⟩ ∧
      S.available semaphore = S.available x.semaphore ∧ S.waiting semaphore = false := by
  obtain ⟨hadded, hstill⟩ := hlawful.addPermits x.semaphore 1
  rw [hwaiting] at hstill
  obtain ⟨semaphore, hacquired, havailable, hidle⟩ :=
    hlawful.tryAcquireOwned (S.addPermits x.semaphore 1) hstill (by omega)
  refine ⟨semaphore, ?_, by omega, hidle⟩
  unfold addHandle
  rw [hacquired]
  rfl

/-- The future is ready exactly if all issued permits are available, and leaves them
available. -/
theorem poll_eq :
    S.available x.poll.1.semaphore = S.available x.semaphore ∧
      x.poll.1.issued = x.issued ∧
      (x.poll.2 = .ready () ↔ x.issued.toNat ≤ S.available x.semaphore) := by
  unfold poll
  by_cases henough : x.issued.toNat ≤ S.available x.semaphore
  · obtain ⟨semaphore, hpoll, htaken, -⟩ :=
      hlawful.acquireMany_ready x.semaphore x.issued henough
    obtain ⟨hreleased, -⟩ := hlawful.release semaphore x.issued.toNat
    rw [hpoll]
    refine ⟨?_, rfl, by simp [henough]⟩
    change S.available (S.release semaphore x.issued.toNat) = S.available x.semaphore
    omega
  · obtain ⟨semaphore, hpoll, hsame, -⟩ :=
      hlawful.acquireMany_pending x.semaphore x.issued (not_le.mp henough)
    rw [hpoll]
    exact ⟨hsame, rfl, by simp [henough]⟩

end Initialized

/-! ## What holds a handle -/

/-- What has become of a handle. -/
inductive Holder
  | handle
  | future (w : ReleasesOnReady Unit Unit)
  | stream (w : ReleasesOnReady Unit Unit)
  | dropped

/-- What can be done with it.  A poll comes with the answer of what is inside. -/
inductive Use
  | releaseOnReadyFuture
  | releaseOnReadyStream
  | poll (answer : Poll Unit)
  | pollNext (answer : Next Unit)
  | drop

namespace Holder

/-- The handle has not been dropped. -/
def live : Holder → Bool
  | handle => true
  | future w => w.handle.isSome
  | stream w => w.handle.isSome
  | dropped => false

/-- What it becomes. -/
def use : Holder → Use → Option Holder
  | handle, .releaseOnReadyFuture => some (future ⟨(), some ()⟩)
  | handle, .releaseOnReadyStream => some (stream ⟨(), some ()⟩)
  | future w, .poll answer => some (future (w.poll fun _ => ((), answer)).1)
  | stream w, .pollNext answer =>
      (w.pollNext fun _ => some ((), answer)).map fun polled => stream polled.1
  | dropped, .drop => none
  | _, .drop => some dropped
  | _, _ => none

/-- A handle that was dropped stays dropped. -/
theorem live_of_use {old new : Holder} {how : Use} (huse : old.use how = some new)
    (hlive : new.live = true) : old.live = true := by
  cases old with
  | handle => rfl
  | dropped => cases how <;> cases huse
  | future w =>
      cases how with
      | poll answer =>
          obtain rfl := Option.some.inj huse
          cases answer with
          | ready out => cases hlive
          | pending => exact hlive
      | drop =>
          obtain rfl := Option.some.inj huse
          cases hlive
      | releaseOnReadyFuture | releaseOnReadyStream | pollNext => cases huse
  | stream w =>
      cases how with
      | pollNext answer =>
          obtain rfl := Option.some.inj huse
          cases answer with
          | ready next => cases hlive
          | pending => exact hlive
      | drop =>
          obtain rfl := Option.some.inj huse
          cases hlive
      | releaseOnReadyFuture | releaseOnReadyStream | poll => cases huse

end Holder

/-! ## The barrier -/

/-- Where an `Initialized` is: still granting handles, awaited, or gone. -/
inductive Stage
  | granting
  | awaited
  | opened
  | dropped
deriving DecidableEq, Repr

/-- An `Initialized` and its handles, in the order in which they were issued. -/
structure Barrier (S : Semaphore) where
  initialized : Initialized S
  stage : Stage
  holders : List Holder

/-- What can happen to a barrier. -/
inductive Barrier.Action
  | addHandle
  | use (n : Nat) (how : Use)
  | await
  | poll
  | drop

/-- What comes out: the handle that is dropped, and the answer to a poll. -/
structure Barrier.Outcome where
  released : Option Nat := none
  answer : Option (Poll Unit) := none

namespace Barrier

variable {S : Semaphore}

/-- Nothing has been granted yet. -/
def default (S : Semaphore) : Barrier S := ⟨Initialized.default S, .granting, []⟩

/-- The number of live handles. -/
def live (b : Barrier S) : Nat := b.holders.countP Holder.live

/-- A holder changes, and its handle is dropped if it was live and is no longer. -/
def replace (b : Barrier S) (n : Nat) (old new : Holder) : Barrier S × Outcome :=
  if old.live && !new.live then
    ({ b with
      initialized := b.initialized.dropHandle
      holders := b.holders.set n new }, ⟨some n, none⟩)
  else ({ b with holders := b.holders.set n new }, {})

/-- One action, with what comes out of it; `none` if it is not possible, or panics. -/
def step? (b : Barrier S) : Action → Option (Barrier S × Outcome)
  | .addHandle =>
      if b.stage = .granting then
        b.initialized.addHandle.map fun initialized =>
          ({ b with initialized := initialized, holders := b.holders ++ [.handle] }, {})
      else none
  | .use n how =>
      b.holders[n]?.bind fun old => (old.use how).map fun new => b.replace n old new
  | .await =>
      if b.stage = .granting then some ({ b with stage := .awaited }, {}) else none
  | .poll =>
      if b.stage = .awaited then
        match b.initialized.poll with
        | (initialized, .pending) =>
            some ({ b with initialized := initialized }, ⟨none, some .pending⟩)
        | (initialized, .ready ()) =>
            some ({ b with initialized := initialized, stage := .opened },
              ⟨none, some (.ready ())⟩)
      else none
  | .drop =>
      match b.stage with
      | .granting => some ({ b with stage := .dropped }, {})
      | .awaited =>
          some ({ b with initialized := b.initialized.cancel, stage := .dropped }, {})
      | _ => none

/-- The step relation, with what comes out of a step. -/
def Step (b : Barrier S) (event : Action × Outcome) (b' : Barrier S) : Prop :=
  b.step? event.1 = some (b', event.2)

/-- The handles that are dropped in a run. -/
def releases (events : List (Action × Outcome)) : List Nat :=
  events.filterMap fun event => event.2.released

/-- Everything that one action can do. -/
inductive Cases (b : Barrier S) : Action → Barrier S → Outcome → Prop
  | addHandle {x : Initialized S} (hstage : b.stage = .granting)
      (hadd : b.initialized.addHandle = some x) :
      Cases b .addHandle { b with initialized := x, holders := b.holders ++ [.handle] } {}
  | use {n : Nat} {how : Use} {old new : Holder} (hold : b.holders[n]? = some old)
      (huse : old.use how = some new) :
      Cases b (.use n how) (b.replace n old new).1 (b.replace n old new).2
  | await (hstage : b.stage = .granting) : Cases b .await { b with stage := .awaited } {}
  | poll {stage : Stage} (hstage : b.stage = .awaited)
      (hopened : stage = if b.initialized.poll.2 = .ready () then .opened else .awaited) :
      Cases b .poll { b with initialized := b.initialized.poll.1, stage := stage }
        ⟨none, some b.initialized.poll.2⟩
  | drop (hstage : b.stage = .granting) : Cases b .drop { b with stage := .dropped } {}
  | cancel (hstage : b.stage = .awaited) :
      Cases b .drop { b with initialized := b.initialized.cancel, stage := .dropped } {}

theorem step?_cases {b b' : Barrier S} {a : Action} {outcome : Outcome}
    (h : b.step? a = some (b', outcome)) : Cases b a b' outcome := by
  cases a with
  | addHandle =>
      simp only [step?] at h
      split at h
      · rename_i hstage
        obtain ⟨x, hadd, hpair⟩ := Option.map_eq_some_iff.mp h
        obtain ⟨rfl, rfl⟩ := Prod.mk.inj hpair
        exact Cases.addHandle hstage hadd
      · cases h
  | use n how =>
      obtain ⟨old, hold, hrest⟩ := Option.bind_eq_some_iff.mp h
      obtain ⟨new, huse, hpair⟩ := Option.map_eq_some_iff.mp hrest
      have hcases : Cases b (.use n how) (b.replace n old new).1 (b.replace n old new).2 :=
        Cases.use hold huse
      rw [hpair] at hcases
      exact hcases
  | await =>
      simp only [step?] at h
      split at h
      · rename_i hstage
        obtain ⟨rfl, rfl⟩ := Prod.mk.inj (Option.some.inj h)
        exact Cases.await hstage
      · cases h
  | poll =>
      simp only [step?] at h
      split at h
      · rename_i hstage
        have hcases := @Cases.poll S b
        split at h
        · rename_i x hpoll
          obtain ⟨rfl, rfl⟩ := Prod.mk.inj (Option.some.inj h)
          rw [hpoll] at hcases
          exact hcases hstage (by simp [hstage])
        · rename_i x hpoll
          obtain ⟨rfl, rfl⟩ := Prod.mk.inj (Option.some.inj h)
          rw [hpoll] at hcases
          exact hcases hstage (by simp)
      · cases h
  | drop =>
      simp only [step?] at h
      split at h
      · rename_i hstage
        obtain ⟨rfl, rfl⟩ := Prod.mk.inj (Option.some.inj h)
        exact Cases.drop hstage
      · rename_i hstage
        obtain ⟨rfl, rfl⟩ := Prod.mk.inj (Option.some.inj h)
        exact Cases.cancel hstage
      · cases h

/-! ## Available permits and live handles -/

/-- The available permits and the live handles add up to the handles that were
issued, and nobody waits before `initialized` is called. -/
structure Balanced (b : Barrier S) : Prop where
  idle : b.stage = .granting → S.waiting b.initialized.semaphore = false
  issued : b.initialized.issued = UInt32.ofNat b.holders.length
  sum : S.available b.initialized.semaphore + b.live = b.holders.length

/-- What a change of a holder does: it drops the handle if it was live and is no
longer. -/
theorem replace_spec (b : Barrier S) {n : Nat} {old new : Holder}
    (hrevive : new.live = true → old.live = true) :
    (b.replace n old new).1.holders = b.holders.set n new ∧
      (b.replace n old new).1.stage = b.stage ∧
      ((old.live = true ∧ new.live = false ∧ (b.replace n old new).2.released = some n ∧
          (b.replace n old new).1.initialized = b.initialized.dropHandle) ∨
        (new.live = old.live ∧ (b.replace n old new).2.released = none ∧
          (b.replace n old new).1.initialized = b.initialized)) := by
  unfold replace
  cases hbefore : old.live with
  | true =>
      cases hafter : new.live with
      | true => exact ⟨rfl, rfl, Or.inr ⟨rfl, rfl, rfl⟩⟩
      | false => exact ⟨rfl, rfl, Or.inl ⟨rfl, rfl, rfl, rfl⟩⟩
  | false =>
      have hafter : new.live = false := by
        cases hnew : new.live with
        | false => rfl
        | true => exact (hrevive hnew).symm.trans hbefore
      exact ⟨rfl, rfl, Or.inr ⟨hafter, rfl, rfl⟩⟩

theorem Balanced.default (hlawful : S.Lawful) : (default S).Balanced := by
  obtain ⟨havailable, hwaiting⟩ := hlawful.new 0
  exact ⟨fun _ => hwaiting, rfl, by simpa [Barrier.default, Initialized.default, live]⟩

theorem Balanced.replace (hlawful : S.Lawful) {b : Barrier S} (h : b.Balanced) {n : Nat}
    {old new : Holder} (hold : b.holders[n]? = some old)
    (hrevive : new.live = true → old.live = true) : (b.replace n old new).1.Balanced := by
  obtain ⟨hholders, hstage, hchange⟩ := b.replace_spec (n := n) hrevive
  have hlive := countP_set_add Holder.live hold new
  rw [← hholders] at hlive
  have hlength : (b.replace n old new).1.holders.length = b.holders.length := by
    rw [hholders, List.length_set]
  have hsum := h.sum
  rcases hchange with ⟨hbefore, hafter, -, hdropped⟩ | ⟨hsame, -, hkept⟩
  · obtain ⟨hreleased, hwaiting⟩ := hlawful.release b.initialized.semaphore 1
    rw [hbefore, hafter] at hlive
    refine ⟨?_, ?_, ?_⟩
    · intro hgranting
      rw [hdropped]
      exact hwaiting.trans (h.idle (hstage.symm.trans hgranting))
    · rw [hdropped, hlength]
      exact h.issued
    · have hcount : (b.replace n old new).1.live + 1 = b.live := hlive
      rw [hdropped, hlength]
      change S.available (S.release b.initialized.semaphore 1) + _ = _
      omega
  · rw [hsame] at hlive
    refine ⟨?_, ?_, ?_⟩
    · intro hgranting
      rw [hkept]
      exact h.idle (hstage.symm.trans hgranting)
    · rw [hkept, hlength]
      exact h.issued
    · have hcount : (b.replace n old new).1.live = b.live := Nat.add_right_cancel hlive
      rw [hkept, hlength, hcount]
      exact hsum

/-- Every action keeps the balance. -/
theorem Balanced.cases (hlawful : S.Lawful) {b b' : Barrier S} (h : b.Balanced)
    {a : Action} {outcome : Outcome} (hcases : Cases b a b' outcome) : b'.Balanced := by
  have hsum := h.sum
  cases hcases with
  | addHandle hstage hadd =>
      obtain ⟨semaphore, hadd', havailable, hidle⟩ :=
        b.initialized.addHandle_eq hlawful (h.idle hstage)
      rw [hadd] at hadd'
      obtain rfl := Option.some.inj hadd'
      refine ⟨fun _ => hidle, ?_, ?_⟩
      · simp [h.issued]
      · change S.available semaphore + (b.holders ++ [Holder.handle]).countP Holder.live = _
        have hcount : (b.holders ++ [Holder.handle]).countP Holder.live = b.live + 1 := by
          simp [live, Holder.live]
        simp only [List.length_append, List.length_singleton]
        omega
  | use hold huse => exact h.replace hlawful hold (Holder.live_of_use huse)
  | await hstage => exact ⟨nofun, h.issued, hsum⟩
  | @poll stage hstage hopened =>
      obtain ⟨havailable, hissued, -⟩ := b.initialized.poll_eq hlawful
      refine ⟨?_, hissued.trans h.issued, ?_⟩
      · intro hgranting
        rw [hopened] at hgranting
        split at hgranting
        · cases hgranting
        · cases hgranting
      · change S.available b.initialized.poll.1.semaphore + b.live = _
        rw [havailable]
        exact hsum
  | drop => exact ⟨nofun, h.issued, hsum⟩
  | cancel =>
      refine ⟨nofun, h.issued, ?_⟩
      change S.available (S.cancelAcquireMany b.initialized.semaphore) + b.live = _
      rw [hlawful.cancelAcquireMany]
      exact hsum

/-- Only `add_handle` makes a handle live. -/
theorem Cases.live_le {b b' : Barrier S} {a : Action} {outcome : Outcome}
    (hcases : Cases b a b' outcome) (ha : a ≠ .addHandle) :
    b'.live ≤ b.live ∧ b'.holders.length = b.holders.length := by
  cases hcases with
  | addHandle => exact absurd rfl ha
  | @use n how old new hold huse =>
      obtain ⟨hholders, -, hchange⟩ := b.replace_spec (n := n) (Holder.live_of_use huse)
      have hlive := countP_set_add Holder.live hold new
      rw [← hholders] at hlive
      refine ⟨?_, by rw [hholders, List.length_set]⟩
      change (b.replace n old new).1.live + old.live.toNat = b.live + new.live.toNat at hlive
      rcases hchange with ⟨hbefore, hafter, -⟩ | ⟨hsame, -⟩
      · rw [hbefore, hafter] at hlive
        simp only [Bool.toNat_true, Bool.toNat_false] at hlive
        omega
      · rw [hsame] at hlive
        omega
  | await | poll | drop | cancel => exact ⟨le_refl _, rfl⟩

theorem live_eq_zero_iff {b : Barrier S} : b.live = 0 ↔ ∀ h ∈ b.holders, h.live = false := by
  unfold live
  rw [List.countP_eq_zero]
  simp

theorem Balanced.issued_toNat {b : Barrier S} (h : b.Balanced)
    (hfew : b.holders.length < 4294967296) :
    b.initialized.issued.toNat = b.holders.length := by
  rw [h.issued]
  exact UInt32.toNat_ofNat_of_lt' hfew

/-- The barrier is open exactly if no handle is live. -/
theorem Balanced.poll_ready_iff (hlawful : S.Lawful) {b : Barrier S} (h : b.Balanced)
    (hfew : b.holders.length < 4294967296) :
    b.initialized.poll.2 = .ready () ↔ b.live = 0 := by
  obtain ⟨-, -, hready⟩ := b.initialized.poll_eq hlawful
  have hissued := h.issued_toNat hfew
  have hsum := h.sum
  rw [hready]
  omega

/-! ## Released handles -/

/-- No handle has been dropped twice, and those that were dropped are no longer
live. -/
structure Accounted (events : List (Action × Outcome)) (b : Barrier S) : Prop where
  nodup : (releases events).Nodup
  mem_iff : ∀ n, n ∈ releases events ↔ ∃ h, b.holders[n]? = some h ∧ h.live = false

theorem releases_append_none (events : List (Action × Outcome)) {a : Action}
    {outcome : Outcome} (h : outcome.released = none) :
    releases (events ++ [(a, outcome)]) = releases events := by
  simp [releases, h]

theorem Accounted.replace {events : List (Action × Outcome)} {b : Barrier S}
    (h : b.Accounted events) {n : Nat} {old new : Holder} {a : Action}
    (hold : b.holders[n]? = some old) (hrevive : new.live = true → old.live = true) :
    (b.replace n old new).1.Accounted (events ++ [(a, (b.replace n old new).2)]) := by
  obtain ⟨hholders, -, hchange⟩ := b.replace_spec (n := n) hrevive
  have hlt : n < b.holders.length := (List.getElem?_eq_some_iff.mp hold).1
  have hself : (b.holders.set n new)[n]? = some new := List.getElem?_set_self hlt
  have hothers : ∀ k, k ≠ n → (b.holders.set n new)[k]? = b.holders[k]? := by
    intro k hk
    exact List.getElem?_set_ne hk.symm
  rcases hchange with ⟨hbefore, hafter, hreleased, -⟩ | ⟨hsame, hreleased, -⟩
  · have hnew : n ∉ releases events := by
      intro hmem
      obtain ⟨h', hh', hdead⟩ := (h.mem_iff n).mp hmem
      rw [hold] at hh'
      obtain rfl := Option.some.inj hh'
      rw [hbefore] at hdead
      cases hdead
    have happend : releases (events ++ [(a, (b.replace n old new).2)]) =
        releases events ++ [n] := by
      simp [releases, hreleased]
    constructor
    · rw [happend]
      refine List.nodup_append.mpr ⟨h.nodup, by simp, ?_⟩
      rintro k hk k' hk' rfl
      rw [List.mem_singleton] at hk'
      exact hnew (hk' ▸ hk)
    · intro k
      rw [happend, hholders, List.mem_append, List.mem_singleton]
      by_cases hk : k = n
      · subst hk
        rw [hself]
        simp [hafter]
      · rw [hothers k hk, h.mem_iff k]
        simp [hk]
  · constructor
    · rw [releases_append_none events hreleased]
      exact h.nodup
    · intro k
      rw [releases_append_none events hreleased, hholders, h.mem_iff k]
      by_cases hk : k = n
      · subst hk
        rw [hself, hold]
        simp [hsame]
      · rw [hothers k hk]

/-- Every action drops handles that were live. -/
theorem Accounted.cases {events : List (Action × Outcome)} {b b' : Barrier S}
    (h : b.Accounted events) {a : Action} {outcome : Outcome}
    (hcases : Cases b a b' outcome) : b'.Accounted (events ++ [(a, outcome)]) := by
  cases hcases with
  | use hold huse => exact h.replace hold (Holder.live_of_use huse)
  | addHandle =>
      refine ⟨by rw [releases_append_none events rfl]; exact h.nodup, ?_⟩
      intro n
      rw [releases_append_none events rfl, h.mem_iff n]
      -- The new handle is live.
      by_cases hlt : n < b.holders.length
      · rw [List.getElem?_append_left hlt]
      · rw [List.getElem?_append_right (not_lt.mp hlt),
          List.getElem?_eq_none (not_lt.mp hlt), List.getElem?_singleton]
        split <;> simp [Holder.live]
  | await | poll | drop | cancel =>
      exact ⟨by rw [releases_append_none events rfl]; exact h.nodup, fun n => by
        rw [releases_append_none events rfl]
        exact h.mem_iff n⟩

/-- In every run, as long as fewer than `2^32` handles are issued: the available
permits and the live handles add up to the issued ones, `add_handle` gets its permit,
no handle is released twice, and a poll of `initialized` is ready exactly if no handle
is live. -/
theorem barrier_opens_when_released (hlawful : S.Lawful)
    {events : List (Action × Outcome)} {b : Barrier S}
    (hrun : Run Step (default S) events b) (hfew : b.holders.length < 4294967296) :
    S.available b.initialized.semaphore + b.live = b.initialized.issued.toNat ∧
      (b.stage = .granting → b.initialized.addHandle.isSome = true) ∧
      (releases events).Nodup ∧
      (b.stage = .awaited →
        (b.initialized.poll.2 = .ready () ↔ ∀ h ∈ b.holders, h.live = false)) := by
  obtain ⟨hbalanced, haccounted⟩ : b.Balanced ∧ b.Accounted events := by
    refine hrun.history (fun past b => b.Balanced ∧ b.Accounted past) ?_ ?_
    · rintro past b ⟨a, outcome⟩ b' ⟨hbalanced, haccounted⟩ hstep
      have hcases := step?_cases hstep
      exact ⟨hbalanced.cases hlawful hcases, haccounted.cases hcases⟩
    · exact ⟨Balanced.default hlawful, List.nodup_nil, fun n => by simp [releases, default]⟩
  have hissued := hbalanced.issued_toNat hfew
  have hsum := hbalanced.sum
  refine ⟨by omega, ?_, haccounted.nodup, ?_⟩
  · intro hstage
    obtain ⟨semaphore, hadd, -⟩ :=
      b.initialized.addHandle_eq hlawful (hbalanced.idle hstage)
    rw [hadd]
    rfl
  · intro _
    rw [hbalanced.poll_ready_iff hlawful hfew, live_eq_zero_iff]

/-- A handle is dropped before the next one is issued.  That one is around a stream,
which has nothing to say when it is polled first, and then ends; in between,
`initialized` is polled. -/
def twoHandles : List (Action × Outcome) :=
  [(.addHandle, {}), (.use 0 .drop, ⟨some 0, none⟩), (.addHandle, {}),
    (.use 1 .releaseOnReadyStream, {}), (.await, {}), (.use 1 (.pollNext .pending), {}),
    (.poll, ⟨none, some .pending⟩), (.use 1 (.pollNext (.ready none)), ⟨some 1, none⟩)]

theorem two_handles_released :
    ∃ b : Barrier Semaphore.fair, Run Step (default Semaphore.fair) twoHandles b ∧
      b.initialized.issued = 2 ∧ b.live = 0 ∧
      Semaphore.fair.available b.initialized.semaphore + b.live =
        b.initialized.issued.toNat ∧
      (releases twoHandles).Nodup ∧ b.initialized.poll.2 = .ready () := by
  have hrun : ∃ b : Barrier Semaphore.fair, Run Step (default Semaphore.fair) twoHandles b ∧
      b.stage = .awaited ∧ b.initialized.issued = 2 ∧
      b.holders = [.dropped, .stream ⟨(), none⟩] := by
    refine ⟨_, .cons rfl (.cons rfl (.cons rfl (.cons rfl (.cons rfl (.cons rfl
      (.cons rfl (.cons rfl (.nil _)))))))), rfl, rfl, rfl⟩
  obtain ⟨b, hrun, hstage, hissued, hholders⟩ := hrun
  have hfew : b.holders.length < 4294967296 := by
    rw [hholders]
    decide
  obtain ⟨hsum, -, hnodup, hready⟩ :=
    barrier_opens_when_released Semaphore.fair_lawful hrun hfew
  have hlive : b.live = 0 := by
    unfold live
    rw [hholders]
    rfl
  refine ⟨b, hrun, hissued, hlive, hsum, hnodup, (hready hstage).mpr ?_⟩
  rw [hholders]
  simp [Holder.live]

end Barrier

end Runtime
end Kubert
