import Kubert.Lease.System

/-!
# What managers know about the server

A manager never sees the server's present state.  It sees answers, caches what
they say together with a version, and sends patches against that version.  An
`Assertion` fixes what is claimed about the resource at such a version,

* `cached` by a cached state,
* `sent` by a patch under way, at the moment it would be applied,
* `wrote` by the answer to a patch that was applied,

and `Assertion.Sound` lists what one step of the code has to establish for it:
one obligation for each way in which the code reads the resource, drops a
claim, sends a patch or finishes a write.  `Knowledge.run` is the induction over
all interleavings, done once for all assertions.  The rest of the development
only instantiates it.
-/

namespace Kubert
namespace Lease

open Foundation

variable {ι : Type}

/-- What is said about the resource at a version. -/
structure Assertion (ι : Type) where
  cached : ι → DateTime → State → Option LeaseSpec → Prop
  sent : DateTime → PatchCall → Option LeaseSpec → Prop
  wrote : PatchCall → Option LeaseSpec → Prop

/-- The obligations of an assertion, for managers on which only the allowed
calls are made. -/
structure Assertion.Sound (A : Assertion ι) (profile : Profile)
    (allowed : ι → Op → Prop) : Prop where
  cached_mono : ∀ {i : ι} {now later : DateTime} {state : State}
    {spec : Option LeaseSpec}, now ≤ later →
    A.cached i now state spec → A.cached i later state spec
  sent_mono : ∀ {now later : DateTime} {call : PatchCall}
    {spec : Option LeaseSpec}, now ≤ later →
    A.sent now call spec → A.sent later call spec
  read : ∀ {i : ι} {now : DateTime} {lease : LeaseResource} {state : State},
    get now (.ok lease) = .ok state → A.cached i now state lease.spec
  drop : ∀ {i : ι} {now : DateTime} {state : State} {claim : Claim}
    {claimant : String} {spec : Option LeaseSpec},
    allowed i (.vacate claimant) → state.claim = some claim →
    claim.isCurrent now = false ∨ claim.holder = claimant →
    A.cached i now state spec → A.cached i now ⟨state.meta, none⟩ spec
  acquire : ∀ {i : ι} {now : DateTime} {state : State} {claimant : String}
    {params : ClaimParams} {write : ClaimWrite} {spec : Option LeaseSpec},
    allowed i (.ensureClaimed claimant params) →
    ensureClaimedHead now state claimant params = .acquire →
    Lease.acquire profile state.meta claimant params now = some write →
    A.cached i now state spec → A.sent now (.claim write) spec
  renew : ∀ {i : ι} {now : DateTime} {state : State} {claimant : String}
    {params : ClaimParams} {spec : Option LeaseSpec},
    allowed i (.ensureClaimed claimant params) →
    ensureClaimedHead now state claimant params = .renew →
    A.cached i now state spec →
    A.sent now (.claim (Lease.renew state.meta claimant params now)) spec
  vacate : ∀ {i : ι} {now : DateTime} {state : State} {claim : Claim}
    {claimant : String} {spec : Option LeaseSpec},
    allowed i (.vacate claimant) → state.claim = some claim →
    claim.isCurrent now = true → claim.holder = claimant →
    A.cached i now state spec →
    A.sent now (.vacate state.meta.version claimant) spec
  apply : ∀ {now : DateTime} {call : PatchCall} {spec : Option LeaseSpec}
    {spec' : LeaseSpec}, A.sent now call spec →
    call.patch.applyTo spec = some spec' → A.wrote call (some spec')
  finish : ∀ {i : ι} {now : DateTime} {write : ClaimWrite}
    {lease : LeaseResource} {claim : Claim} {newMeta : Meta}
    {spec : Option LeaseSpec},
    write.finish lease = .ok (claim, newMeta) → A.wrote (.claim write) spec →
    A.cached i now ⟨newMeta, some claim⟩ spec

/-- What an answer says about the resource at the version it names. -/
def Assertion.answered (A : Assertion ι) (body : Body) (lease : LeaseResource)
    (spec : Option LeaseSpec) : Prop :=
  match body with
  | .get => lease.spec = spec
  | .patch call => A.wrote call spec

/-- Everything that is cached or under way is justified by the server's
register. -/
structure Knowledge (A : Assertion ι) (allowed : ι → Op → Prop) (s : Sys ι) :
    Prop where
  pcOk : ∀ i, (s.nodes i).PcOk (allowed i) s.now
  cached : ∀ i m, (s.nodes i).manager = some m →
    s.server.Knows m.state.meta.version (A.cached i s.now m.state)
  sent : ∀ req ∈ s.requests, ∀ call, req.body = .patch call →
    s.server.Knows call.version (A.sent s.now call)
  answered : ∀ resp ∈ s.responses, ∀ lease, resp.result = .ok lease →
    ∃ version, lease.resourceVersion = some version ∧
      s.server.Knows version (A.answered resp.request.body lease)

/-- The calls that a run makes are allowed ones. -/
def Action.Obeys (allowed : ι → Op → Prop) : Action ι → Prop
  | .call i op => allowed i op
  | _ => True

/-- The steps of managers on which only the allowed calls are made. -/
def Sys.StepWith [DecidableEq ι] (profile : Profile)
    (allowed : ι → Op → Prop) (s : Sys ι) (a : Action ι) (t : Sys ι) : Prop :=
  Sys.Step profile s a t ∧ a.Obeys allowed

/-- Only a call action makes a call. -/
theorem Sys.Feeds.obeys {s : Sys ι} {a : Action ι} {i : ι} {input : Input}
    {allowed : ι → Op → Prop} (hfeeds : s.Feeds a i input)
    (hobeys : a.Obeys allowed) {op : Op} (hop : input = .call op) :
    allowed i op := by
  cases hfeeds with
  | call i op' =>
      obtain rfl := Input.call.inj hop
      exact hobeys
  | resume => cases hop
  | cancel => cases hop
  | deliver => cases hop
  | fail => cases hop

namespace Knowledge

variable {A : Assertion ι} {profile : Profile} {allowed : ι → Op → Prop}

/-- Nothing is cached or under way at the start. -/
theorem initial (now : DateTime) (version : String) (spec : Option LeaseSpec) :
    Knowledge A allowed (Sys.initial now version spec) where
  pcOk := by
    intro i m hm
    cases hm
  cached := by
    intro i m hm
    cases hm
  sent := by
    intro req hreq
    cases hreq
  answered := by
    intro resp hresp
    cases hresp

/-- The state that a node caches after a step is justified: it is the old one,
or it comes out of an answer. -/
theorem cached_advance (hsound : A.Sound profile allowed) {s : Sys ι}
    (hknows : Knowledge A allowed s) {a : Action ι} {i : ι} {input : Input}
    {effect : Effect} {m' : LeaseManager} (hfeeds : s.Feeds a i input)
    (hobeys : a.Obeys allowed)
    (hstep : (s.nodes i).step profile s.now s.nextId input = some effect)
    (hm' : effect.node.manager = some m') :
    s.server.Knows m'.state.meta.version (A.cached i s.now m'.state) := by
  have hchange := Node.step_stateChange hstep hm'
  generalize m'.state = state at hchange
  cases hchange with
  | kept hm => exact hknows.cached i _ hm
  | dropped hm hclaim hwhy =>
      have hop := hfeeds.obeys hobeys rfl
      exact (hknows.cached i _ hm).imp (hsound.drop hop hclaim hwhy)
  | @read id caller lease _ hpc hget =>
      -- What was read is cached under the version that the answer names.
      have hresponse := hfeeds.delivered (Node.awaits_get_iff.mpr ⟨_, hpc⟩)
      obtain ⟨version, hversion, hanswer⟩ := hknows.answered _ hresponse lease rfl
      have hsame := (get_ok hget).1
      rw [hversion] at hsame
      obtain rfl := Option.some.inj hsame
      refine hanswer.imp fun hspec => ?_
      have hread := hsound.read (i := i) hget
      rwa [show lease.spec = s.server.value from hspec] at hread
  | @wrote id write params lease claim newMeta hpc hfinish =>
      -- What was written is cached under the version that the write was given.
      have hresponse := hfeeds.delivered (Node.awaits_claim_iff.mpr ⟨_, hpc⟩)
      obtain ⟨version, hversion, hanswer⟩ := hknows.answered _ hresponse lease rfl
      have hsame := (ClaimWrite.finish_ok hfinish).1
      rw [hversion] at hsame
      obtain rfl := Option.some.inj hsame
      exact hanswer.imp (hsound.finish hfinish)

/-- A patch that a node sends is justified by the state it has cached. -/
theorem sent_advance (hsound : A.Sound profile allowed) {s : Sys ι}
    (hknows : Knowledge A allowed s) {a : Action ι} {i : ι} {input : Input}
    {effect : Effect} {call : PatchCall} (hfeeds : s.Feeds a i input)
    (hobeys : a.Obeys allowed)
    (hstep : (s.nodes i).step profile s.now s.nextId input = some effect)
    (hsend : effect.send = some (.patch call)) :
    s.server.Knows call.version (A.sent s.now call) := by
  cases Node.step_sends hstep hsend with
  | @acquire claimant params m write hpc hm hwrite =>
      obtain ⟨hop, hhead⟩ : allowed i (.ensureClaimed claimant params) ∧
          ensureClaimedHead s.now m.state claimant params = .acquire := by
        have hok := hknows.pcOk i m hm
        rwa [hpc] at hok
      have hversion : write.version = m.state.meta.version := by
        obtain ⟨transitions, -, rfl⟩ := Option.map_eq_some_iff.mp hwrite
        rfl
      have hcached := hknows.cached i m hm
      rw [← hversion] at hcached
      exact hcached.imp (hsound.acquire hop hhead hwrite)
  | @renew claimant params m hpc hm =>
      obtain ⟨hop, hhead⟩ : allowed i (.ensureClaimed claimant params) ∧
          ensureClaimedHead s.now m.state claimant params = .renew := by
        have hok := hknows.pcOk i m hm
        rwa [hpc] at hok
      exact (hknows.cached i m hm).imp (hsound.renew hop hhead)
  | @vacate claimant m claim hm hclaim hcurrent hholder =>
      have hop := hfeeds.obeys hobeys rfl
      exact (hknows.cached i m hm).imp (hsound.vacate hop hclaim hcurrent hholder)

/-- Time only adds to what is known. -/
theorem tick (hsound : A.Sound profile allowed) {s : Sys ι}
    (hknows : Knowledge A allowed s) {t : DateTime} (hle : s.now ≤ t) :
    Knowledge A allowed { s with now := t } where
  pcOk := fun i => (hknows.pcOk i).mono hle
  cached := fun i m hm => (hknows.cached i m hm).imp (hsound.cached_mono hle)
  sent := fun req hreq call hbody =>
    (hknows.sent req hreq call hbody).imp (hsound.sent_mono hle)
  answered := hknows.answered

/-- An applied write leaves all older knowledge intact: it is about versions
that are no longer current. -/
theorem write {s : Sys ι} (hknows : Knowledge A allowed s) {version : String}
    (hnew : version ∉ s.server.issued) (spec : Option LeaseSpec) :
    Knowledge A allowed { s with server := s.server.write version spec } where
  pcOk := hknows.pcOk
  cached := fun i m hm => (hknows.cached i m hm).write hnew
  sent := fun req hreq call hbody => (hknows.sent req hreq call hbody).write hnew
  answered := by
    intro resp hresp lease hlease
    obtain ⟨v, hv, hanswer⟩ := hknows.answered resp hresp lease hlease
    exact ⟨v, hv, hanswer.write hnew⟩

variable [DecidableEq ι]

/-- A step of a node keeps the knowledge justified. -/
theorem advance (hsound : A.Sound profile allowed) {s : Sys ι}
    (hknows : Knowledge A allowed s) {a : Action ι} {i : ι} {input : Input}
    {effect : Effect} (hfeeds : s.Feeds a i input) (hobeys : a.Obeys allowed)
    (hstep : (s.nodes i).step profile s.now s.nextId input = some effect) :
    Knowledge A allowed (s.advance i effect) where
  pcOk := by
    intro j
    by_cases hj : j = i
    · subst hj
      have hok := Node.step_pcOk (fun op hop => hfeeds.obeys hobeys hop)
        (hknows.pcOk j) hstep
      simpa [Sys.advance] using hok
    · simpa [Sys.advance, hj] using hknows.pcOk j
  cached := by
    intro j m' hm'
    by_cases hj : j = i
    · subst hj
      have hm : effect.node.manager = some m' := by
        simpa [Sys.advance] using hm'
      exact cached_advance hsound hknows hfeeds hobeys hstep hm
    · have hm : (s.nodes j).manager = some m' := by
        simpa [Sys.advance, hj] using hm'
      exact hknows.cached j m' hm
  sent := by
    intro req hreq call hbody
    rcases Sys.mem_advance_requests.mp hreq with hold | ⟨body, hsend, rfl⟩
    · exact hknows.sent req hold call hbody
    · obtain rfl : body = .patch call := hbody
      exact sent_advance hsound hknows hfeeds hobeys hstep hsend
  answered := hknows.answered

/-- Removing a request and adding a justified answer keeps the knowledge
justified. -/
theorem answer {s : Sys ι} (hknows : Knowledge A allowed s) {req : Request ι}
    {result : Except Error LeaseResource}
    (hresult : ∀ lease, result = .ok lease →
      ∃ version, lease.resourceVersion = some version ∧
        s.server.Knows version (A.answered req.body lease)) :
    Knowledge A allowed (s.answer req result) where
  pcOk := hknows.pcOk
  cached := hknows.cached
  sent := fun r hr => hknows.sent r (List.mem_of_mem_erase hr)
  answered := by
    intro resp hresp lease hlease
    rcases List.mem_cons.mp hresp with rfl | hresp
    · exact hresult lease hlease
    · exact hknows.answered resp hresp lease hlease

/-- Every action keeps the knowledge justified. -/
theorem step (hsound : A.Sound profile allowed) {s t : Sys ι} {a : Action ι}
    (hknows : Knowledge A allowed s) (hstep : Sys.StepWith profile allowed s a t) :
    Knowledge A allowed t := by
  obtain ⟨hstep, hobeys⟩ := hstep
  obtain ⟨ret, hcases⟩ := hstep.cases
  cases hcases with
  | tick hle => exact hknows.tick hsound hle
  | node hfeeds hnode => exact hknows.advance hsound hfeeds hobeys hnode
  | @serve req hmem hbody =>
      refine hknows.answer fun lease hlease => ?_
      obtain rfl := Except.ok.inj hlease
      refine ⟨s.server.version, rfl, Register.knows_current ?_⟩
      rw [hbody]
      rfl
  | @apply req version call spec hmem hbody hversion hnew happly =>
      -- The patch was applied, so its version was current and what was known of it holds.
      have hsent := (hknows.sent req hmem call hbody).elim hversion
      refine (hknows.write hnew (some spec)).answer fun lease hlease => ?_
      obtain rfl := Except.ok.inj hlease
      refine ⟨version, rfl, ?_⟩
      change (s.server.write version (some spec)).Knows
        (s.server.write version (some spec)).version _
      refine Register.knows_current ?_
      rw [hbody]
      exact hsound.apply hsent happly
  | conflict hmem hbody hversion =>
      exact hknows.answer fun lease hlease => nomatch hlease
  | refuse hmem hcode =>
      exact hknows.answer fun lease hlease => nomatch hlease
  | lose hmem =>
      exact
        { pcOk := hknows.pcOk
          cached := hknows.cached
          sent := fun r hr => hknows.sent r (List.mem_of_mem_erase hr)
          answered := hknows.answered }

/-- In every state of every run, everything that is cached or under way is
justified. -/
theorem run (hsound : A.Sound profile allowed) {now : DateTime}
    {version : String} {spec : Option LeaseSpec} {actions : List (Action ι)}
    {s : Sys ι}
    (hrun : Run (Sys.StepWith profile allowed) (Sys.initial now version spec)
      actions s) : Knowledge A allowed s :=
  hrun.invariant (Knowledge A allowed)
    (fun _ _ _ hknows hstep => hknows.step hsound hstep)
    (initial now version spec)

end Knowledge

end Lease
end Kubert
