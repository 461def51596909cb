import Kubert.Lease.Holder

/-!
# Calls take effect between their invocation and their return

A manager talks to the server through requests that may be overtaken, lost or answered
when nobody waits any more.  Whatever else is under way, a call that succeeds has had
its effect while it was running: what `sync` returns was read from the resource after the
call had begun; a claim that `ensure_claimed` returns was recorded on the server by then,
or the manager had it cached before; and when `vacate` returns `Ok(true)`, the claim of
its claimant was recorded until the call, and was cleared by it.

The reason is that answers are taken only for the request that is awaited, and that
requests are numbered: the requests of a call have numbers that were not used when it
began.  `Since` is the invariant, from the invocation on.
-/

namespace Kubert
namespace Lease

open Foundation

variable {ι : Type}

/-! ## What the server does for a request -/

/-- The resource records the claim: its holder, and its expiry up to the sub-second part
of the duration and the microseconds of the clock. -/
def Records (spec : Option LeaseSpec) (claim : String × Int) : Prop :=
  holderOf spec = some claim.1 ∧
    ∃ recorded, expiryOf spec = some recorded ∧ recorded ≤ claim.2 ∧
      claim.2 < recorded + 1000001000

/-- The holder and the expiry of a claim. -/
def Claim.terms (claim : Claim) : String × Int := (claim.holder, claim.expiry.nanos)

/-- What a patch has done to the resource. -/
def PatchCall.Changed (before after : Option LeaseSpec) : PatchCall → Prop
  | .claim write =>
      Records after (write.claimant, write.now.nanos + write.leaseDuration.nanos)
  | .vacate _ claimant =>
      holderOf before = some claimant ∧ holderOf after = none ∧ expiryOf after = none

/-- A step in which the server answers a request with this resource. -/
inductive Answers (req : Request ι) (lease : LeaseResource) (r : Sys ι) :
    Action ι → Sys ι → Prop
  | served {r' : Sys ι} (hbody : req.body = .get) (hlease : leaseOf r.server = lease) :
      Answers req lease r (.serve req) r'
  | applied {r' : Sys ι} {call : PatchCall} {version : String} (hbody : req.body = .patch call)
      (hlease : leaseOf r'.server = lease)
      (hchanged : call.Changed r.server.value r'.server.value) :
      Answers req lease r (.apply req version) r'

theorem Answers.of_patch {req : Request ι} {lease : LeaseResource} {r r' : Sys ι}
    {a : Action ι} {call : PatchCall} (h : Answers req lease r a r')
    (hbody : req.body = .patch call) :
    leaseOf r'.server = lease ∧ call.Changed r.server.value r'.server.value := by
  cases h with
  | served hget =>
      rw [hbody] at hget
      cases hget
  | applied hbody' hlease hchanged =>
      rw [hbody] at hbody'
      obtain rfl := Body.patch.inj hbody'
      exact ⟨hlease, hchanged⟩

theorem Answers.of_get {req : Request ι} {lease : LeaseResource} {r r' : Sys ι}
    {a : Action ι} (h : Answers req lease r a r') (hbody : req.body = .get) :
    a = .serve req ∧ leaseOf r.server = lease := by
  cases h with
  | served _ hlease => exact ⟨rfl, hlease⟩
  | applied hpatch =>
      rw [hbody] at hpatch
      cases hpatch

/-- A written claim is recorded, but for what is cut off. -/
theorem records_of_applyTo {write : ClaimWrite} {params : ClaimParams}
    {spec : Option LeaseSpec} {spec' : LeaseSpec}
    (hparams : write.leaseDuration = params.leaseDelta)
    (hholder : write.kind = .renew → holderOf spec = some write.claimant)
    (happly : write.patch.applyTo spec = some spec') :
    Records (some spec') (write.claimant, write.now.nanos + write.leaseDuration.nanos) := by
  obtain ⟨hexpiry, hfits⟩ := ClaimWrite.applyTo_expiry happly
  refine ⟨?_, _, hexpiry, published_le_local hparams, ?_⟩
  · cases hkind : write.kind with
    | acquire => exact (ClaimWrite.applyTo_acquire hkind happly).1
    | renew =>
        rw [(ClaimWrite.applyTo_renew hkind happly).1]
        exact hholder hkind
  · rw [hparams] at hfits ⊢
    obtain ⟨hsecs, -⟩ := ClaimParams.numSeconds_add_subsecNanos hfits
    have hsubsec := params.leaseDuration.subsecNanos_lt
    have hmod := Int.emod_lt_of_pos write.now.nanos (show (0 : Int) < 1000 by decide)
    have hmicro : write.now.toMicroTime.nanos = write.now.nanos - write.now.nanos % 1000 := rfl
    simp only
    omega

/-- What was read is recorded as it is. -/
theorem records_of_get {now : DateTime} {lease : LeaseResource} {state : State}
    {claim : Claim} (hget : get now (.ok lease) = .ok state)
    (hclaim : state.claim = some claim) : Records lease.spec claim.terms := by
  obtain ⟨-, -, hread, -⟩ := get_ok hget
  obtain ⟨hholder, hexpiry, -⟩ := hread claim hclaim
  refine ⟨hholder, _, hexpiry, le_refl _, ?_⟩
  change claim.expiry.nanos < claim.expiry.nanos + 1000001000
  omega

variable [DecidableEq ι]

/-! ## Since a call -/

variable {profile : Profile} {i : ι} {op : Op} {s s₁ : Sys ι}

/-- What holds of a manager and of the answers to its requests since a call was made in
the state `s`, as long as the manager makes no other call. -/
structure Since (profile : Profile) (i : ι) (op : Op) (s s₁ : Sys ι)
    (past : List (Action ι)) (r : Sys ι) : Prop where
  run : Run (Sys.Step profile) s₁ past r
  knows : Knowledge (holding ι) anyCall r
  answered : ∀ resp ∈ r.responses, s.nextId ≤ resp.request.id → ∀ lease,
    resp.result = .ok lease →
      Passes (Sys.Step profile) (Answers resp.request lease) s₁ past r
  started : s.nextId ≤ r.nextId
  awaits : ∀ id body, (r.nodes i).awaits = some (id, body) → s.nextId ≤ id
  cached : ∀ m claim, (r.nodes i).manager = some m → m.state.claim = some claim →
    (∃ m₀, (s.nodes i).manager = some m₀ ∧ m₀.state.claim = some claim) ∨
      ∃ req lease, req.sender = i ∧ Records lease.spec claim.terms ∧
        Passes (Sys.Step profile) (Answers req lease) s₁ past r
  vacates : ∀ id version claimant, (r.nodes i).pc = .vacating id version claimant →
    op = .vacate claimant

namespace Since

variable {past : List (Action ι)} {r r' : Sys ι} {a : Action ι}

/-- The answer that the manager is fed with was given since the call. -/
theorem fed (h : Since profile i op s s₁ past r) {lease : LeaseResource} {id : Nat} {body : Body}
    (hfeeds : r.Feeds a i (.response (.ok lease)))
    (hawaits : (r.nodes i).awaits = some (id, body)) :
    Passes (Sys.Step profile) (Answers ⟨id, i, body⟩ lease) s₁ past r :=
  h.answered _ (hfeeds.delivered hawaits) (h.awaits id body hawaits) lease rfl

/-- A write that is answered is recorded in the answer. -/
theorem records_of_finish {req : Request ι} {write : ClaimWrite} {lease : LeaseResource}
    {claim : Claim} {newMeta : Meta} (hbody : req.body = .patch (.claim write))
    (hfinish : write.finish lease = .ok (claim, newMeta))
    (hanswers : Passes (Sys.Step profile) (Answers req lease) s₁ past r) :
    Records lease.spec claim.terms := by
  obtain ⟨_, _, _, u, u', -, -, -, -, hfact⟩ := hanswers
  obtain ⟨hlease, hchanged⟩ := hfact.of_patch hbody
  subst hlease
  obtain ⟨-, -, hholder, hexpiry⟩ := ClaimWrite.finish_ok hfinish
  rw [Claim.terms, hholder, hexpiry]
  exact hchanged

/-- A new answer is given by the step that brings it. -/
theorem answers_of_cases (h : Since profile i op s s₁ past r) {ret : Option Return}
    (hcases : Sys.Cases profile r a r' ret) :
    ∀ resp ∈ r'.responses, resp ∈ r.responses ∨
      ∀ lease, resp.result = .ok lease → Answers resp.request lease r a r' := by
  intro resp hresp
  cases hcases with
  | tick | node | lose => exact .inl hresp
  | serve hmem hbody =>
      refine (List.mem_cons.mp hresp).symm.imp_right ?_
      rintro rfl lease ⟨⟩
      exact .served hbody rfl
  | @apply req version call spec hmem hbody hversion hnew happly =>
      refine (List.mem_cons.mp hresp).symm.imp_right ?_
      rintro rfl lease ⟨⟩
      -- What was known of the version of the patch holds, since it is the current one.
      have hsent := (h.knows.sent req hmem call hbody).elim hversion
      refine .applied hbody rfl ?_
      cases call with
      | claim write =>
          obtain ⟨⟨params, hparams⟩, hrenew⟩ := hsent
          exact records_of_applyTo hparams hrenew happly
      | vacate version claimant =>
          obtain ⟨hholder, hexpiry, -⟩ := applyTo_vacate happly
          exact ⟨hsent, hholder, hexpiry⟩
  | conflict hmem | refuse hmem =>
      refine (List.mem_cons.mp hresp).symm.imp_right ?_
      rintro rfl lease ⟨⟩

/-- What a step brings, if it leaves the manager in order. -/
theorem extend (h : Since profile i op s s₁ past r) (hstep : Sys.Step profile r a r')
    (hnext : r.nextId ≤ r'.nextId)
    (hawaits : ∀ id body, (r'.nodes i).awaits = some (id, body) → s.nextId ≤ id)
    (hcached : ∀ m claim, (r'.nodes i).manager = some m → m.state.claim = some claim →
      (∃ m', (r.nodes i).manager = some m' ∧ m'.state.claim = some claim) ∨
        ∃ req lease, req.sender = i ∧ Records lease.spec claim.terms ∧
          Passes (Sys.Step profile) (Answers req lease) s₁ past r)
    (hvacates : ∀ id version claimant, (r'.nodes i).pc = .vacating id version claimant →
      op = .vacate claimant) :
    Since profile i op s s₁ (past ++ [a]) r' where
  run := h.run.append (Run.cons hstep (Run.nil r'))
  knows := h.knows.step (holding_sound profile anyCall) ⟨hstep, by cases a <;> trivial⟩
  answered resp hresp hid lease hlease := by
    obtain ⟨ret, hcases⟩ := hstep.cases
    rcases h.answers_of_cases hcases resp hresp with hold | hnew
    · exact (h.answered resp hold hid lease hlease).concat hstep
    · exact .last h.run hstep (hnew lease hlease)
  started := h.started.trans hnext
  awaits := hawaits
  cached m claim hm hclaim := by
    have hpast : ∀ req lease, req.sender = i → Records lease.spec claim.terms →
        Passes (Sys.Step profile) (Answers req lease) s₁ past r →
        ∃ req lease, req.sender = i ∧ Records lease.spec claim.terms ∧
          Passes (Sys.Step profile) (Answers req lease) s₁ (past ++ [a]) r' :=
      fun req lease hsender hrecords hpasses =>
        ⟨req, lease, hsender, hrecords, hpasses.concat hstep⟩
    rcases hcached m claim hm hclaim with ⟨m', hm', hclaim'⟩ | ⟨req, lease, hsender, hrest⟩
    · rcases h.cached m' claim hm' hclaim' with hbefore | ⟨req, lease, hsender, hrest⟩
      · exact .inl hbefore
      · exact .inr (hpast req lease hsender hrest.1 hrest.2)
    · exact .inr (hpast req lease hsender hrest.1 hrest.2)
  vacates := hvacates

/-- The manager itself goes on. -/
theorem advance (h : Since profile i op s s₁ past r) {input : Input} {effect : Effect}
    (hstep : Sys.Step profile r a (r.advance i effect)) (hfeeds : r.Feeds a i input)
    (hnode : (r.nodes i).step profile r.now r.nextId input = some effect)
    (hcall : ∀ op, input ≠ .call op) :
    Since profile i op s s₁ (past ++ [a]) (r.advance i effect) := by
  refine h.extend hstep (Nat.le_succ r.nextId) ?_ ?_ ?_
  · intro id body hawaits
    rw [Sys.advance_nodes_self, Node.step_awaits hnode] at hawaits
    obtain ⟨sent, -, hpair⟩ := Option.map_eq_some_iff.mp hawaits
    obtain ⟨rfl, rfl⟩ := Prod.mk.inj hpair
    exact h.started
  · intro m claim hm hclaim
    rw [Sys.advance_nodes_self] at hm
    have hchange := Node.step_stateChange hnode hm
    generalize m.state = state at hchange hclaim
    cases hchange with
    | kept hm' => exact .inl ⟨_, hm', hclaim⟩
    | dropped => exact absurd rfl (hcall _)
    | @read id caller lease _ hpc hget =>
        have hanswers := h.fed hfeeds (Node.awaits_get_iff.mpr ⟨_, hpc⟩)
        exact .inr ⟨_, lease, rfl, records_of_get hget hclaim, hanswers⟩
    | @wrote id write params lease written newMeta hpc hfinish =>
        obtain rfl := Option.some.inj hclaim
        have hanswers := h.fed hfeeds (Node.awaits_claim_iff.mpr ⟨_, hpc⟩)
        exact .inr ⟨_, lease, rfl, records_of_finish rfl hfinish hanswers, hanswers⟩
  · -- Only a call of `vacate` leads to its await.
    intro id version claimant hpc
    rw [Sys.advance_nodes_self] at hpc
    cases Node.step_moves hnode with
    | init | withDiagnostics | sync | ensureClaimed | vacateSkipped | vacateSent =>
        exact absurd rfl (hcall _)
    | @due _ _ _ kind => cases kind <;> cases hpc
    | returned | headPanicked | renewSent | acquireSent | acquirePanicked | getFailed
    | gotInit | gotSync | gotResync | conflicted | claimFailed | finishFailed | claimed
    | vacateFailed | vacated | cancelled => cases hpc

/-- Every step that is not another call of the manager. -/
theorem step (h : Since profile i op s s₁ past r) (hstep : Sys.Step profile r a r')
    (hcall : ∀ op, a ≠ .call i op) : Since profile i op s s₁ (past ++ [a]) r' := by
  have hkeep : r'.nodes i = r.nodes i → r.nextId ≤ r'.nextId →
      Since profile i op s s₁ (past ++ [a]) r' := by
    intro hnode hnext
    refine h.extend hstep hnext ?_ ?_ ?_
    · rw [hnode]
      exact h.awaits
    · rw [hnode]
      exact fun m claim hm hclaim => .inl ⟨m, hm, hclaim⟩
    · rw [hnode]
      exact h.vacates
  obtain ⟨ret, hcases⟩ := hstep.cases
  cases hcases with
  | @node _ j input effect hfeeds hnode =>
      by_cases hj : j = i
      · subst hj
        refine h.advance hstep hfeeds hnode ?_
        rintro op' rfl
        cases hfeeds with
        | call => exact hcall op' rfl
      · refine hkeep ?_ (Nat.le_succ r.nextId)
        simp [Sys.advance, Ne.symm hj]
  | tick | serve | apply | conflict | refuse | lose => exact hkeep rfl (Nat.le_refl _)

/-- A call has begun. -/
theorem call {now : DateTime} {version : String} {spec : Option LeaseSpec}
    {before : List (Action ι)}
    (hrun : Run (Sys.Step profile) (Sys.initial now version spec) before s)
    (hcall : Sys.Step profile s (.call i op) s₁) : Since profile i op s s₁ [] s₁ := by
  have hnumbered : s.Numbered := by
    refine hrun.invariant Sys.Numbered ?_ (Sys.Numbered.initial now version spec)
    intro r a r' hnum hstep
    obtain ⟨ret, hcases⟩ := hstep.cases
    exact hnum.cases hcases
  have hknows : Knowledge (holding ι) anyCall s₁ :=
    Knowledge.run (holding_sound profile anyCall)
      (run_anyCall (hrun.append (Run.cons hcall (Run.nil s₁))))
  obtain ⟨ret, hcases⟩ := hcall.cases
  cases hcases with
  | @node _ j input effect hfeeds hnode =>
      cases hfeeds with
      | call =>
          refine ⟨Run.nil _, hknows, ?_, Nat.le_succ s.nextId, ?_, ?_, ?_⟩
          · -- No number from the call on has been used before.
            intro resp hresp hid
            exact absurd hid (Nat.not_le.mpr (hnumbered.response resp hresp))
          · intro id body hawaits
            rw [Sys.advance_nodes_self, Node.step_awaits hnode] at hawaits
            obtain ⟨sent, -, hpair⟩ := Option.map_eq_some_iff.mp hawaits
            obtain ⟨rfl, rfl⟩ := Prod.mk.inj hpair
            exact Nat.le_refl _
          · intro m claim hm hclaim
            rw [Sys.advance_nodes_self] at hm
            have hchange := Node.step_stateChange hnode hm
            generalize m.state = state at hchange hclaim
            cases hchange with
            | kept hm' => exact .inl ⟨_, hm', hclaim⟩
            | dropped => cases hclaim
          · intro id version claimant hpc
            rw [Sys.advance_nodes_self] at hpc
            cases Node.step_moves hnode with
            | vacateSent =>
                obtain ⟨-, -, rfl⟩ := Pc.vacating.inj hpc
                rfl
            | init | withDiagnostics | sync | ensureClaimed | vacateSkipped => cases hpc

/-- It stays so until the next call. -/
theorem of_run {middle : List (Action ι)} {s₂ : Sys ι}
    (h : Since profile i op s s₁ [] s₁) (hmiddle : Run (Sys.Step profile) s₁ middle s₂)
    (hcall : ∀ op, .call i op ∉ middle) : Since profile i op s s₁ middle s₂ := by
  have hrestricted : Run (fun r a r' => Sys.Step profile r a r' ∧ ∀ op, a ≠ .call i op)
      s₁ middle s₂ := hmiddle.restrict fun a ha op hop => hcall op (hop ▸ ha)
  exact hrestricted.history_append (Since profile i op s s₁)
    (fun past r a r' hpast hstep => hpast.step hstep.1 hstep.2) h

end Since

/-! ## The effect of a call -/

/-- What a call that was made in `s` and returns in `s₂` has done meanwhile. -/
def TookEffect (profile : Profile) (i : ι) (op : Op) (s s₁ : Sys ι)
    (middle : List (Action ι)) (s₂ : Sys ι) : Return → Prop
  | .sync (.ok claim) =>
      Passes (Sys.Step profile) (fun r a _ => ∃ req state, a = .serve req ∧ req.sender = i ∧
        get s₂.now (.ok (leaseOf r.server)) = .ok state ∧ state.claim = claim) s₁ middle s₂
  | .ensureClaimed (.ok claim) =>
      (∃ m, (s.nodes i).manager = some m ∧ m.state.claim = some claim) ∨
        Passes (Sys.Step profile) (fun r a r' => ∃ req, req.sender = i ∧
          (a = .serve req ∧ Records r.server.value claim.terms ∨
            ∃ version, a = .apply req version ∧ Records r'.server.value claim.terms))
          s₁ middle s₂
  | .vacate (.ok true) =>
      ∃ claimant, op = .vacate claimant ∧
        Passes (Sys.Step profile) (fun r a r' => ∃ req version, a = .apply req version ∧
          req.sender = i ∧ holderOf r.server.value = some claimant ∧
          holderOf r'.server.value = none ∧ expiryOf r'.server.value = none) s₁ middle s₂
  | _ => True

section Effects

variable {middle : List (Action ι)} {s₂ : Sys ι}

omit [DecidableEq ι] in
/-- The answer that a claim was taken from records it. -/
theorem Answers.records {req : Request ι} {lease : LeaseResource} {r r' : Sys ι} {a : Action ι}
    {claim : Claim} (hanswers : Answers req lease r a r') (hsender : req.sender = i)
    (hrecords : Records lease.spec claim.terms) :
    ∃ req, req.sender = i ∧ (a = .serve req ∧ Records r.server.value claim.terms ∨
      ∃ version, a = .apply req version ∧ Records r'.server.value claim.terms) := by
  cases hanswers with
  | served _ hlease =>
      subst hlease
      exact ⟨req, hsender, .inl ⟨rfl, hrecords⟩⟩
  | applied _ hlease _ =>
      subst hlease
      exact ⟨req, hsender, .inr ⟨_, rfl, hrecords⟩⟩

theorem Since.tookEffect_ensureClaimed (h : Since profile i op s s₁ middle s₂)
    {m : LeaseManager} {claim : Claim} (hm : (s₂.nodes i).manager = some m)
    (hclaim : m.state.claim = some claim) :
    TookEffect profile i op s s₁ middle s₂ (.ensureClaimed (.ok claim)) := by
  refine (h.cached m claim hm hclaim).imp_right ?_
  rintro ⟨req, lease, hsender, hrecords, hpasses⟩
  exact hpasses.imp fun _ _ _ hanswers => hanswers.records hsender hrecords

end Effects

/-- In every run of any managers, whatever requests are lost or overtaken: a call that
succeeds takes effect between its invocation and its return.  What `sync` returns is the
resource as the server read it then; a claim that `ensure_claimed` returns was cached
before the call, or the server has recorded it then; and for `vacate` the server has
cleared the claim of its claimant, which was recorded until then. -/
theorem calls_take_effect (profile : Profile) {now : DateTime} {version : String}
    {spec : Option LeaseSpec} {before middle : List (Action ι)} {i : ι} {op : Op}
    {a : Action ι} {ret : Return} {s s₁ s₂ s₃ : Sys ι}
    (hrun : Run (Sys.Step profile) (Sys.initial now version spec) before s)
    (hcall : Sys.Step profile s (.call i op) s₁)
    (hmiddle : Run (Sys.Step profile) s₁ middle s₂)
    (hreturn : s₂.perform profile a = some (s₃, some ret)) (hactor : a.actor = some i)
    (hsame : ∀ op', .call i op' ∉ middle ++ [a]) :
    TookEffect profile i op s s₁ middle s₂ ret := by
  have h : Since profile i op s s₁ middle s₂ :=
    (Since.call hrun hcall).of_run hmiddle fun op' hmem =>
      hsame op' (List.mem_append_left _ hmem)
  have hcases := Sys.perform_cases hreturn
  generalize hout : some ret = out at hcases
  cases hcases with
  | @node _ j input effect hfeeds hnode =>
      obtain rfl : j = i := Option.some.inj (hfeeds.actor.symm.trans hactor)
      have hnocall : ∀ op', input ≠ .call op' := by
        rintro op' rfl
        cases hfeeds with
        | call => exact hsame op' (List.mem_append_right _ (List.mem_singleton_self _))
      cases Node.step_moves hnode with
      | init | withDiagnostics | sync | ensureClaimed | vacateSkipped | vacateSent =>
          exact absurd rfl (hnocall _)
      | returned hpc hm hhead =>
          obtain rfl := Option.some.inj hout
          exact h.tookEffect_ensureClaimed hm (claim_of_ensureClaimedHead_return hhead)
      | gotSync hpc hm hget =>
          obtain rfl := Option.some.inj hout
          refine (h.fed hfeeds (Node.awaits_get_iff.mpr ⟨_, hpc⟩)).imp ?_
          intro r a r' hanswers
          obtain ⟨rfl, rfl⟩ := hanswers.of_get rfl
          exact ⟨_, _, rfl, rfl, hget, rfl⟩
      | claimed hpc hm hfinish =>
          obtain rfl := Option.some.inj hout
          have hanswers := h.fed hfeeds (Node.awaits_claim_iff.mpr ⟨_, hpc⟩)
          have hrecords := Since.records_of_finish rfl hfinish hanswers
          exact .inr (hanswers.imp fun _ _ _ hanswer => hanswer.records rfl hrecords)
      | vacated hpc hm =>
          obtain rfl := Option.some.inj hout
          refine ⟨_, h.vacates _ _ _ hpc, ?_⟩
          refine (h.fed hfeeds (Node.awaits_vacate_iff.mpr hpc)).imp ?_
          intro r a r' hanswers
          cases hanswers with
          | served hbody => cases hbody
          | applied hbody _ hchanged =>
              obtain rfl := Body.patch.inj hbody
              exact ⟨_, _, rfl, rfl, hchanged⟩
      | gotInit =>
          obtain rfl := Option.some.inj hout
          trivial
      | @getFailed _ caller =>
          obtain rfl := Option.some.inj hout
          cases caller <;> trivial
      | headPanicked | acquirePanicked | claimFailed | finishFailed | vacateFailed =>
          obtain rfl := Option.some.inj hout
          trivial
      | due | renewSent | acquireSent | gotResync | conflicted | cancelled => cases hout
  | tick | serve | apply | conflict | refuse | lose => cases hout

/-- A call of `vacate` that returns `Ok(true)`. -/
def Return.isVacated : Return → Bool
  | .vacate (.ok done) => done
  | _ => false

theorem Return.eq_of_isVacated {ret : Return} (h : ret.isVacated = true) :
    ret = .vacate (.ok true) := by
  cases ret with
  | vacate result =>
      cases result with
      | error f => cases h
      | ok done => rw [show done = true from h]
  | init _ | unit | sync _ | ensureClaimed _ => cases h

/-- Alice's claim is cleared while her manager vacates it. -/
theorem alice_claim_cleared_during_vacate :
    ∃ s₁ s₂ : Sys Bool,
      Run (Sys.Step .release) s₁ [.apply ⟨6, false, .patch (.vacate "2" "alice")⟩ "3"] s₂ ∧
      Passes (Sys.Step .release) (fun r a r' => ∃ req version, a = .apply req version ∧
        req.sender = false ∧ holderOf r.server.value = some "alice" ∧
        holderOf r'.server.value = none ∧ expiryOf r'.server.value = none)
        s₁ [.apply ⟨6, false, .patch (.vacate "2" "alice")⟩ "3"] s₂ := by
  obtain ⟨s₁, s₂, hs₁, happly, hs₂⟩ := exists_execAll_step
    (show (execAll (Sys.step? .release) exampleStart
      ((aliceClaims ++ [.call false (.vacate "alice")]) ++
        [.apply ⟨6, false, .patch (.vacate "2" "alice")⟩ "3"])).isSome = true by
      decide +kernel)
  obtain ⟨s, _, hs, hcall, hsame⟩ := exists_execAll_step
    (show (execAll (Sys.step? .release) exampleStart
      (aliceClaims ++ [.call false (.vacate "alice")])).isSome = true by decide +kernel)
  obtain rfl := Option.some.inj (hsame.symm.trans hs₁)
  have hmiddle : Run (Sys.Step .release) _
      [.apply ⟨6, false, .patch (.vacate "2" "alice")⟩ "3"] s₂ := Run.cons happly (Run.nil s₂)
  have hvacated : (s₂.perform .release (.deliver false (.ok ⟨some "3", some
      ⟨none, none, none, none, some 1⟩⟩))).bind (fun next => next.2.map Return.isVacated) =
        some true :=
    eq_of_execAll_map (fun s : Sys Bool => (s.perform .release (.deliver false (.ok ⟨some "3",
      some ⟨none, none, none, none, some 1⟩⟩))).bind fun next => next.2.map Return.isVacated)
      hs₂ (by decide +kernel)
  obtain ⟨⟨s₃, ret⟩, hreturn, hret⟩ := Option.bind_eq_some_iff.mp hvacated
  obtain ⟨ret, rfl, hdone⟩ := Option.map_eq_some_iff.mp hret
  have heffect := calls_take_effect .release (run_of_execAll (fun _ _ _ h => h) hs) hcall hmiddle
    hreturn rfl (by simp)
  refine ⟨_, s₂, hmiddle, ?_⟩
  obtain rfl := Return.eq_of_isVacated hdone
  obtain ⟨claimant, hclaimant, hpasses⟩ := heffect
  cases hclaimant
  exact hpasses

end Lease
end Kubert
