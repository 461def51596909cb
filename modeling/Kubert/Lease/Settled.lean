import Kubert.Lease.Holder
import Kubert.Lease.Spawn

/-!
# When a spawned manager is settled

Patches of failed attempts may be under way for a long time.  Whether they matter
is a question of versions.

* A manager is *clean* when none of its patches under way could be applied: all
  of them were made against versions that have been overwritten.
* It is *settled* at a version when it is clean and the server can record its
  claimant as the holder only at that version.

`ensure_claimed` returns a claim only when the manager is settled at the cached
version.  An answered write has moved the version past all earlier patches; a
conflict shows that the cached version, which all applicable patches were made
against, is gone; and as long as neither has happened the cached state calls for
a write, so that the loop does not return.

This module is about one manager that makes only the calls of `spawn`, among
others that serve other claimants; `Relinquish` follows its task.
-/

namespace Kubert
namespace Lease

open Foundation

variable {ι : Type}

/-! ## Versions and patches under way -/

/-- No patch of the manager that is under way could be applied. -/
def Clean (s : Sys ι) (i : ι) : Prop :=
  ∀ req ∈ s.requests, req.sender = i → ∀ call, req.body = .patch call →
    call.version ≠ s.server.version

/-- A patch of the manager that is under way could be applied only at this
version. -/
def Behind (s : Sys ι) (i : ι) (version : String) : Prop :=
  ∀ req ∈ s.requests, req.sender = i → ∀ call, req.body = .patch call →
    call.version = s.server.version → call.version = version

/-- The manager is clean, and its claimant is the recorded holder at most at
this version. -/
def Settled (s : Sys ι) (i : ι) (claimant version : String) : Prop :=
  Clean s i ∧ (holderOf s.server.value = some claimant → s.server.version = version)

/-- The manager is clean, and its claimant holds no unexpired claim. -/
def GivenUp (s : Sys ι) (i : ι) (claimant : String) : Prop :=
  Clean s i ∧ (holderOf s.server.value = some claimant →
    ∀ expiry, expiryOf s.server.value = some expiry → expiry ≤ s.now.nanos)

/-- The cached state calls for a write. -/
def Due (now : DateTime) (state : State) (claimant : String)
    (params : ClaimParams) : Prop :=
  ∃ kind : ClaimKind, ensureClaimedHead now state claimant params = kind.head

theorem Clean.behind {s : Sys ι} {i : ι} (hclean : Clean s i) (version : String) :
    Behind s i version := by
  intro req hreq hsender call hbody hcurrent
  exact absurd hcurrent (hclean req hreq hsender call hbody)

/-- If the version that applicable patches were made against is gone, there are
none. -/
theorem Behind.clean {s : Sys ι} {i : ι} {version : String}
    (hbehind : Behind s i version) (hgone : version ≠ s.server.version) :
    Clean s i := by
  intro req hreq hsender call hbody hcurrent
  exact hgone (hbehind req hreq hsender call hbody hcurrent ▸ hcurrent)

theorem Due.mono {now later : DateTime} {state : State} {claimant : String}
    {params : ClaimParams} (hle : now ≤ later)
    (hdue : Due now state claimant params) : Due later state claimant params := by
  obtain ⟨kind, hhead⟩ := hdue
  exact ⟨kind, ensureClaimedHead_mono hle hhead⟩

/-- Where a write is due the loop does not return. -/
theorem Due.not_return {now : DateTime} {state : State} {claimant : String}
    {params : ClaimParams} {claim : Claim}
    (hdue : Due now state claimant params)
    (hhead : ensureClaimedHead now state claimant params = .return claim) :
    False := by
  obtain ⟨kind, hkind⟩ := hdue
  rw [hkind] at hhead
  cases kind <;> cases hhead

/-! ## Steps of everybody else -/

/-- A step from the point of view of a manager that does not take it: its node
and its requests stay as they are, or the server has dealt with one of them, and
a write makes its claimant the holder only if it is one of its own patches. -/
structure Outside (i : ι) (claimant : String) (s t : Sys ι) : Prop where
  node : t.nodes i = s.nodes i
  now : s.now ≤ t.now
  own : ∀ req ∈ t.requests, req.sender = i → req ∈ s.requests
  server : t.server = s.server ∨
    ∃ version spec, version ∉ s.server.issued ∧
      t.server = s.server.write version spec ∧
      (Clean s i → holderOf spec ≠ some claimant)

/-- The versions that a manager's patches were made against were handed out. -/
def OwnIssued (s : Sys ι) (i : ι) : Prop :=
  ∀ req ∈ s.requests, req.sender = i → ∀ call, req.body = .patch call →
    call.version ∈ s.server.issued

namespace Outside

variable {i : ι} {claimant : String} {s t : Sys ι}

/-- After a write by anybody no patch of the manager can be applied. -/
theorem clean_of_write (hout : Outside i claimant s t) (hissued : OwnIssued s i)
    {version : String} {spec : Option LeaseSpec}
    (hnew : version ∉ s.server.issued)
    (hserver : t.server = s.server.write version spec) : Clean t i := by
  intro req hreq hsender call hbody hcurrent
  rw [hserver, Register.write_version] at hcurrent
  have hold := hissued req (hout.own req hreq hsender) hsender call hbody
  rw [hcurrent] at hold
  exact hnew hold

theorem clean (hout : Outside i claimant s t) (hissued : OwnIssued s i)
    (hclean : Clean s i) : Clean t i := by
  rcases hout.server with hsame | ⟨version, spec, hnew, hserver, -⟩
  · intro req hreq hsender call hbody
    rw [hsame]
    exact hclean req (hout.own req hreq hsender) hsender call hbody
  · exact hout.clean_of_write hissued hnew hserver

theorem behind (hout : Outside i claimant s t) (hissued : OwnIssued s i)
    {version : String} (hbehind : Behind s i version) : Behind t i version := by
  rcases hout.server with hsame | ⟨next, spec, hnew, hserver, -⟩
  · intro req hreq hsender call hbody
    rw [hsame]
    exact hbehind req (hout.own req hreq hsender) hsender call hbody
  · exact (hout.clean_of_write hissued hnew hserver).behind version

theorem settled (hout : Outside i claimant s t) (hissued : OwnIssued s i)
    {version : String} (hsettled : Settled s i claimant version) :
    Settled t i claimant version := by
  refine ⟨hout.clean hissued hsettled.1, ?_⟩
  rcases hout.server with hsame | ⟨next, spec, -, hserver, hforeign⟩
  · rw [hsame]
    exact hsettled.2
  · intro hholder
    rw [hserver, Register.write_value] at hholder
    exact absurd hholder (hforeign hsettled.1)

theorem givenUp (hout : Outside i claimant s t) (hissued : OwnIssued s i)
    (hgiven : GivenUp s i claimant) : GivenUp t i claimant := by
  refine ⟨hout.clean hissued hgiven.1, ?_⟩
  intro hholder expiry hexpiry
  have hle := (DateTime.le_def s.now t.now).mp hout.now
  rcases hout.server with hsame | ⟨next, spec, -, hserver, hforeign⟩
  · rw [hsame] at hholder hexpiry
    have hreached := hgiven.2 hholder expiry hexpiry
    omega
  · rw [hserver, Register.write_value] at hholder
    exact absurd hholder (hforeign hgiven.1)

end Outside

/-! ## The invariant -/

/-- The calls that `spawn` makes on its manager. -/
def own (claimant : String) (params : ClaimParams) : Op → Prop
  | .ensureClaimed c p => c = claimant ∧ p = params
  | .vacate c => c = claimant
  | _ => True

/-- One manager is used by `spawn`, and the others serve other claimants. -/
def among (i : ι) (claimant : String) (params : ClaimParams) (j : ι) (op : Op) :
    Prop :=
  (j = i → own claimant params op) ∧ (j ≠ i → Spawned.foreign claimant j op)

/-- What an answer that the manager awaits implies once it has been given. -/
def AnswerOk (s : Sys ι) (i : ι) (claimant : String) :
    Body → Except Error LeaseResource → Prop
  | .get, .ok lease => ∀ version, lease.resourceVersion = some version →
      Settled s i claimant version
  | .patch (.claim _), .ok lease => ∀ version,
      lease.resourceVersion = some version → Settled s i claimant version
  | .patch (.claim _), .error e => isConflict e = true → Clean s i
  | .patch (.vacate _ _), .ok _ => GivenUp s i claimant
  | _, _ => True

/-- What holds where the manager stands in a call. -/
def PcReady (s : Sys ι) (i : ι) (claimant : String) (params : ClaimParams) :
    Prop :=
  match (s.nodes i).pc with
  | .idle => True
  | .getting _ (.resync _ _) =>
      Clean s i ∧ ∀ m, (s.nodes i).manager = some m →
        Due s.now m.state claimant params
  | .getting _ _ =>
      Clean s i ∧ ∀ m, (s.nodes i).manager = some m →
        Settled s i claimant m.state.meta.version
  | .ensuring _ _ => ∀ m, (s.nodes i).manager = some m →
      Settled s i claimant m.state.meta.version ∨
        (Due s.now m.state claimant params ∧ Behind s i m.state.meta.version)
  | .renewing _ _ => ∀ m, (s.nodes i).manager = some m →
      Behind s i m.state.meta.version
  | .acquiring _ _ => ∀ m, (s.nodes i).manager = some m →
      Behind s i m.state.meta.version
  | .claiming _ write _ => Behind s i write.version
  | .vacating _ _ _ => True

/-- What holds when a call has returned. -/
def ReturnOk (s : Sys ι) (i : ι) (claimant : String) (params : ClaimParams) :
    Return → Prop
  | .init _ => Clean s i ∧ ∀ m, (s.nodes i).manager = some m →
      Settled s i claimant m.state.meta.version
  | .sync _ => Clean s i ∧ ∀ m, (s.nodes i).manager = some m →
      Settled s i claimant m.state.meta.version
  | .unit => Clean s i ∧ ∀ m, (s.nodes i).manager = some m →
      Settled s i claimant m.state.meta.version
  | .ensureClaimed (.ok claim) => ∃ m, (s.nodes i).manager = some m ∧
      m.state.claim = some claim ∧ Settled s i claimant m.state.meta.version
  | .ensureClaimed (.error (.error _)) => ∀ m, (s.nodes i).manager = some m →
      Due s.now m.state claimant params ∧ Behind s i m.state.meta.version
  | .vacate (.ok _) => GivenUp s i claimant
  | _ => True

/-- The part of the invariant that is about the system. -/
structure Intact (i : ι) (claimant : String) (params : ClaimParams) (s : Sys ι) :
    Prop where
  knows : Knowledge (holding ι) (among i claimant params) s
  foreign : ∀ req ∈ s.requests, req.sender ≠ i → ∀ call, req.body = .patch call →
    call.claimant ≠ claimant
  numbered : s.Numbered
  answers : ∀ id body result, (s.nodes i).awaits = some (id, body) →
    ⟨⟨id, i, body⟩, result⟩ ∈ s.responses → AnswerOk s i claimant body result
  pcReady : PcReady s i claimant params

theorem Intact.ownIssued {i : ι} {claimant : String} {params : ClaimParams}
    {s : Sys ι} (hinv : Intact i claimant params s) : OwnIssued s i :=
  fun req hreq _ call hbody => (hinv.knows.sent req hreq call hbody).1

/-! ## The manager's own steps -/

section Own

variable [DecidableEq ι] {profile : Profile} {i : ι} {claimant : String}
  {params : ClaimParams} {s : Sys ι} {effect : Effect}

theorem Clean.advance (hclean : Clean s i)
    (hsend : ∀ call, effect.send ≠ some (.patch call)) :
    Clean (s.advance i effect) i := by
  intro req hreq hsender call hbody
  rcases Sys.mem_advance_requests.mp hreq with hold | ⟨body, hbody', rfl⟩
  · exact hclean req hold hsender call hbody
  · obtain rfl : body = .patch call := hbody
    exact absurd hbody' (hsend call)

theorem Behind.advance {version : String} (hbehind : Behind s i version)
    (hsend : ∀ call, effect.send = some (.patch call) → call.version = version) :
    Behind (s.advance i effect) i version := by
  intro req hreq hsender call hbody hcurrent
  rcases Sys.mem_advance_requests.mp hreq with hold | ⟨body, hbody', rfl⟩
  · exact hbehind req hold hsender call hbody hcurrent
  · obtain rfl : body = .patch call := hbody
    exact hsend call hbody'

theorem Settled.advance {version : String} (hsettled : Settled s i claimant version)
    (hsend : ∀ call, effect.send ≠ some (.patch call)) :
    Settled (s.advance i effect) i claimant version :=
  ⟨hsettled.1.advance hsend, hsettled.2⟩

theorem GivenUp.advance (hgiven : GivenUp s i claimant)
    (hsend : ∀ call, effect.send ≠ some (.patch call)) :
    GivenUp (s.advance i effect) i claimant :=
  ⟨hgiven.1.advance hsend, hgiven.2⟩

/-- An own step keeps the system part of the invariant, if the program counter is
in order after it: the answer to what it has just sent is not there yet. -/
theorem Intact.advance_self (hinv : Intact i claimant params s) {a : Action ι}
    {input : Input} (hfeeds : s.Feeds a i input)
    (hobeys : a.Obeys (among i claimant params))
    (hstep : (s.nodes i).step profile s.now s.nextId input = some effect)
    (hready : PcReady (s.advance i effect) i claimant params) :
    Intact i claimant params (s.advance i effect) where
  knows := hinv.knows.advance (holding_sound profile _) hfeeds hobeys hstep
  foreign := by
    intro req hreq hsender
    rcases Sys.mem_advance_requests.mp hreq with hold | ⟨body, -, rfl⟩
    · exact hinv.foreign req hold hsender
    · exact absurd rfl hsender
  numbered := hinv.numbered.advance i effect
  answers := by
    intro id body result hawaits hresponse
    rw [Sys.advance_nodes_self] at hawaits
    obtain rfl := Node.step_awaits_id hstep hawaits
    exact absurd (hinv.numbered.response _ hresponse) (lt_irrefl _)
  pcReady := hready

omit [DecidableEq ι] in
/-- The end of an await comes with an answer that has been given, or with an
error that is no conflict. -/
theorem Intact.answerOk (hinv : Intact i claimant params s) {a : Action ι}
    {result : Except Error LeaseResource} {id : Nat} {body : Body}
    (hfeeds : s.Feeds a i (.response result))
    (hawaits : (s.nodes i).awaits = some (id, body)) :
    AnswerOk s i claimant body result := by
  cases hfeeds with
  | deliver hawait hresponse =>
      rw [hawaits] at hawait
      obtain ⟨rfl, rfl⟩ := Prod.mk.inj (Option.some.inj hawait)
      exact hinv.answers _ _ _ hawaits hresponse
  | @fail _ e _ hconflict =>
      cases body with
      | get => trivial
      | patch call =>
          cases call with
          | claim write =>
              intro h
              rw [hconflict] at h
              cases h
          | vacate version c => trivial

omit [DecidableEq ι] in
/-- While a write is awaited the cached state calls for it, at the version the
write was made against. -/
theorem Intact.claiming (hinv : Intact i claimant params s) {id : Nat}
    {write : ClaimWrite} {p : ClaimParams} {m : LeaseManager}
    (hpc : (s.nodes i).pc = .claiming id write p)
    (hm : (s.nodes i).manager = some m) :
    Due s.now m.state claimant params ∧ Behind s i m.state.meta.version := by
  have hok := hinv.knows.pcOk i m hm
  have hready := hinv.pcReady
  unfold PcReady at hready
  rw [hpc] at hok hready
  obtain ⟨hallowed, hhead, hversion, -⟩ := hok
  obtain ⟨hclaimant, rfl⟩ := hallowed.1 rfl
  rw [hclaimant] at hhead
  rw [← hversion]
  exact ⟨⟨write.kind, hhead⟩, hready⟩

/-- A step that caches a settled state, and sends nothing, leaves the manager at rest. -/
theorem Settled.rests {m : LeaseManager} {pc : Pc} {ret : Option Return}
    (hsettled : Settled s i claimant m.state.meta.version) :
    Clean (s.advance i ⟨⟨some m, pc⟩, none, ret⟩) i ∧
      ∀ m', ((s.advance i ⟨⟨some m, pc⟩, none, ret⟩).nodes i).manager = some m' →
        Settled (s.advance i ⟨⟨some m, pc⟩, none, ret⟩) i claimant
          m'.state.meta.version := by
  refine ⟨hsettled.1.advance (by simp), ?_⟩
  intro m' hm'
  rw [Sys.advance_nodes_self] at hm'
  obtain rfl := Option.some.inj hm'
  exact hsettled.advance (by simp)

/-- After a `get` has failed the manager is as it was before the `get`. -/
theorem Intact.getFailed (hinv : Intact i claimant params s) {id : Nat} {caller : GetFor}
    (hpc : (s.nodes i).pc = .getting id caller) (f : Fault) :
    ReturnOk (s.advance i ⟨⟨(s.nodes i).manager, .idle⟩, none, some (caller.fail f)⟩) i
      claimant params (caller.fail f) := by
  have hready := hinv.pcReady
  unfold PcReady at hready
  rw [hpc] at hready
  cases caller with
  | init | sync =>
      refine ⟨hready.1.advance (by simp), ?_⟩
      intro m hm
      rw [Sys.advance_nodes_self] at hm
      exact (hready.2 m hm).advance (by simp)
  | resync c p =>
      cases f with
      | panic => trivial
      | error e =>
          intro m hm
          rw [Sys.advance_nodes_self] at hm
          exact ⟨hready.2 m hm, (hready.1.behind _).advance (by simp)⟩

/-- After a write has failed it is still due.  It may be applied later, and its version
is the cached one. -/
theorem Intact.claimFailed (hinv : Intact i claimant params s) {id : Nat}
    {write : ClaimWrite} {p : ClaimParams} {m : LeaseManager}
    (hpc : (s.nodes i).pc = .claiming id write p)
    (hm : (s.nodes i).manager = some m) (f : Fault) :
    ReturnOk (s.advance i ⟨⟨some m, .idle⟩, none, some (.ensureClaimed (.error f))⟩) i
      claimant params (.ensureClaimed (.error f)) := by
  cases f with
  | panic => trivial
  | error e =>
      intro m' hm'
      rw [Sys.advance_nodes_self] at hm'
      obtain rfl := Option.some.inj hm'
      obtain ⟨hdue, hbehind⟩ := hinv.claiming hpc hm
      exact ⟨hdue, hbehind.advance (by simp)⟩

/-- Going on with a call keeps the program counter in order, and what the call
returns is justified. -/
theorem Intact.progress (hinv : Intact i claimant params s) {a : Action ι}
    {input : Input} (hfeeds : s.Feeds a i input)
    (hcontinues : a.continues = true)
    (hstep : (s.nodes i).step profile s.now s.nextId input = some effect) :
    PcReady (s.advance i effect) i claimant params ∧
      ∀ ret, effect.ret = some ret →
        ReturnOk (s.advance i effect) i claimant params ret := by
  have hready := hinv.pcReady
  unfold PcReady at hready ⊢
  rw [Sys.advance_nodes_self]
  cases Node.step_moves hstep with
  | init | withDiagnostics | sync | ensureClaimed | vacateSkipped | vacateSent =>
      cases hfeeds
      cases hcontinues
  | cancelled =>
      cases hfeeds
      cases hcontinues
  | @returned m c p claim hpc hm hhead =>
      refine ⟨trivial, ?_⟩
      rintro ret ⟨⟩
      refine ⟨m, by simp, claim_of_ensureClaimedHead_return hhead, ?_⟩
      have hok := hinv.knows.pcOk i m hm
      rw [hpc] at hready hok
      obtain ⟨rfl, rfl⟩ := hok.1 rfl
      -- Where a write is due the loop would not have returned.
      rcases hready m hm with hsettled | ⟨hdue, -⟩
      · exact hsettled.advance (by simp)
      · exact (hdue.not_return hhead).elim
  | headPanicked => exact ⟨trivial, by rintro ret ⟨⟩; trivial⟩
  | acquirePanicked => exact ⟨trivial, by rintro ret ⟨⟩; trivial⟩
  | @due m c p kind hpc hm hhead =>
      refine ⟨?_, by simp⟩
      rw [hpc] at hready
      have hbehind : Behind s i m.state.meta.version := by
        rcases hready m hm with hsettled | ⟨-, hbehind⟩
        · exact hsettled.1.behind _
        · exact hbehind
      have hafter : Behind (s.advance i ⟨⟨some m, kind.pc c p⟩, none, none⟩) i
          m.state.meta.version := hbehind.advance (by simp)
      cases kind with
      | acquire =>
          rintro m' ⟨⟩
          exact hafter
      | renew =>
          rintro m' ⟨⟩
          exact hafter
  | @renewSent m c p hpc hm =>
      rw [hpc] at hready
      refine ⟨?_, by simp⟩
      exact (hready m hm).advance (by rintro call ⟨⟩; rfl)
  | @acquireSent m c p write hpc hm hwrite =>
      rw [hpc] at hready
      refine ⟨?_, by simp⟩
      have hversion : write.version = m.state.meta.version := by
        obtain ⟨transitions, -, rfl⟩ := Option.map_eq_some_iff.mp hwrite
        rfl
      change Behind _ i write.version
      rw [hversion]
      exact (hready m hm).advance (by rintro call ⟨⟩; exact hversion)
  | @getFailed awaited caller result f hpc hget =>
      refine ⟨trivial, ?_⟩
      rintro ret ⟨⟩
      exact hinv.getFailed hpc f
  | @gotInit awaited lease state hpc hget =>
      refine ⟨trivial, ?_⟩
      rintro ret ⟨⟩
      have hanswer := hinv.answerOk hfeeds (Node.awaits_get_iff.mpr ⟨_, hpc⟩)
      exact Settled.rests (hanswer _ (get_ok hget).1)
  | @gotSync awaited m lease state hpc hm hget =>
      refine ⟨trivial, ?_⟩
      rintro ret ⟨⟩
      have hanswer := hinv.answerOk hfeeds (Node.awaits_get_iff.mpr ⟨_, hpc⟩)
      exact Settled.rests (hanswer _ (get_ok hget).1)
  | @gotResync awaited c p m lease state hpc hm hget =>
      refine ⟨?_, by simp⟩
      have hanswer := hinv.answerOk hfeeds (Node.awaits_get_iff.mpr ⟨_, hpc⟩)
      have hsettled := hanswer _ (get_ok hget).1
      rintro m' ⟨⟩
      exact Or.inl (hsettled.advance (by simp))
  | @conflicted awaited write p m e hpc hm hconflict =>
      refine ⟨?_, by simp⟩
      have hanswer := hinv.answerOk hfeeds (Node.awaits_claim_iff.mpr ⟨_, hpc⟩)
      refine ⟨(hanswer hconflict).advance (by simp), ?_⟩
      rintro m' ⟨⟩
      exact (hinv.claiming hpc hm).1
  | @claimFailed awaited write p m e hpc hm hconflict =>
      refine ⟨trivial, ?_⟩
      rintro ret ⟨⟩
      exact hinv.claimFailed hpc hm (.error e)
  | @finishFailed awaited write p m lease f hpc hm hfinish =>
      refine ⟨trivial, ?_⟩
      rintro ret ⟨⟩
      exact hinv.claimFailed hpc hm f
  | @claimed awaited write p m lease claim newMeta hpc hm hfinish =>
      refine ⟨trivial, ?_⟩
      rintro ret ⟨⟩
      have hanswer := hinv.answerOk hfeeds (Node.awaits_claim_iff.mpr ⟨_, hpc⟩)
      have hsettled := hanswer _ (ClaimWrite.finish_ok hfinish).1
      refine ⟨m.update s.now ⟨newMeta, some claim⟩, by simp, rfl, ?_⟩
      exact hsettled.advance (by simp)
  | vacateFailed => exact ⟨trivial, by rintro ret ⟨⟩; trivial⟩
  | @vacated awaited version c m lease hpc hm =>
      refine ⟨trivial, ?_⟩
      rintro ret ⟨⟩
      have hanswer := hinv.answerOk hfeeds (Node.awaits_vacate_iff.mpr hpc)
      exact GivenUp.advance hanswer (by simp)

end Own

/-! ## Everybody else's steps -/

section Others

variable {profile : Profile} {i : ι} {claimant : String} {params : ClaimParams}
  {s t : Sys ι}

theorem AnswerOk.outside (hout : Outside i claimant s t) (hissued : OwnIssued s i)
    {body : Body} {result : Except Error LeaseResource}
    (hanswer : AnswerOk s i claimant body result) :
    AnswerOk t i claimant body result := by
  cases body with
  | get =>
      cases result with
      | ok lease =>
          exact fun version hversion =>
            hout.settled hissued (hanswer version hversion)
      | error e => trivial
  | patch call =>
      cases call with
      | claim write =>
          cases result with
          | ok lease =>
              exact fun version hversion =>
                hout.settled hissued (hanswer version hversion)
          | error e => exact fun hconflict => hout.clean hissued (hanswer hconflict)
      | vacate version c =>
          cases result with
          | ok lease => exact hout.givenUp hissued hanswer
          | error e => trivial

theorem PcReady.outside (hout : Outside i claimant s t) (hissued : OwnIssued s i)
    (hready : PcReady s i claimant params) : PcReady t i claimant params := by
  unfold PcReady at hready ⊢
  rw [hout.node]
  cases hpc : (s.nodes i).pc with
  | idle => trivial
  | getting id caller =>
      rw [hpc] at hready
      cases caller with
      | init =>
          exact ⟨hout.clean hissued hready.1, fun m hm =>
            hout.settled hissued (hready.2 m hm)⟩
      | sync =>
          exact ⟨hout.clean hissued hready.1, fun m hm =>
            hout.settled hissued (hready.2 m hm)⟩
      | resync c p =>
          exact ⟨hout.clean hissued hready.1, fun m hm =>
            (hready.2 m hm).mono hout.now⟩
  | ensuring c p =>
      rw [hpc] at hready
      intro m hm
      rcases hready m hm with hsettled | ⟨hdue, hbehind⟩
      · exact Or.inl (hout.settled hissued hsettled)
      · exact Or.inr ⟨hdue.mono hout.now, hout.behind hissued hbehind⟩
  | renewing c p =>
      rw [hpc] at hready
      exact fun m hm => hout.behind hissued (hready m hm)
  | acquiring c p =>
      rw [hpc] at hready
      exact fun m hm => hout.behind hissued (hready m hm)
  | claiming id write p =>
      rw [hpc] at hready
      exact hout.behind hissued hready
  | vacating id version c => trivial

/-- While the manager awaits a read it is clean. -/
theorem PcReady.clean_of_getting (hready : PcReady s i claimant params) {id : Nat}
    (hawaits : (s.nodes i).awaits = some (id, .get)) : Clean s i := by
  obtain ⟨caller, hpc⟩ := Node.awaits_get_iff.mp hawaits
  unfold PcReady at hready
  rw [hpc] at hready
  cases caller with
  | init => exact hready.1
  | sync => exact hready.1
  | resync c p => exact hready.1

/-- The patches of other managers do not make the claimant the holder. -/
theorem Intact.holder_of_foreign (hinv : Intact i claimant params s)
    {req : Request ι} {call : PatchCall} {spec : LeaseSpec}
    (hmem : req ∈ s.requests) (hsender : req.sender ≠ i)
    (hbody : req.body = .patch call) (hversion : call.version = s.server.version)
    (happly : call.patch.applyTo s.server.value = some spec) :
    holderOf (some spec) ≠ some claimant := by
  have hsent := (hinv.knows.sent req hmem call hbody).elim hversion
  have hforeign := hinv.foreign req hmem hsender call hbody
  have hwrote := (holding_sound (ι := ι) .release anyCall).apply hsent happly
  cases call with
  | claim write =>
      rw [hwrote.1]
      exact fun hsame => hforeign (Option.some.inj hsame)
  | vacate version c =>
      rw [show holderOf (some spec) = none from hwrote]
      exact nofun

/-- What another manager sends is not in the claimant's name. -/
theorem Intact.foreign_of_sent (hinv : Intact i claimant params s)
    {a : Action ι} {j : ι} {input : Input} {effect : Effect} {call : PatchCall}
    (hj : j ≠ i) (hfeeds : s.Feeds a j input)
    (hobeys : a.Obeys (among i claimant params))
    (hstep : (s.nodes j).step profile s.now s.nextId input = some effect)
    (hsend : effect.send = some (.patch call)) : call.claimant ≠ claimant := by
  cases Node.step_sends hstep hsend with
  | @acquire c p m write hpc hm hwrite =>
      have hok := hinv.knows.pcOk j m hm
      rw [hpc] at hok
      obtain ⟨transitions, -, rfl⟩ := Option.map_eq_some_iff.mp hwrite
      exact hok.1.2 hj
  | @renew c p m hpc hm =>
      have hok := hinv.knows.pcOk j m hm
      rw [hpc] at hok
      exact hok.1.2 hj
  | vacate hm hclaim hcurrent hholder =>
      exact (hfeeds.obeys hobeys rfl).2 hj

variable [DecidableEq ι]

/-- An action of anybody else is a step from outside. -/
theorem Intact.outside (hinv : Intact i claimant params s) {a : Action ι}
    {ret : Option Return} (hactor : a.actor ≠ some i)
    (hcases : Sys.Cases profile s a t ret) : Outside i claimant s t := by
  have hsame : ∀ {req : Request ι} {result : Except Error LeaseResource},
      Outside i claimant s (s.answer req result) := fun {req result} =>
    { node := rfl
      now := DateTime.le_refl _
      own := fun r hr _ => List.mem_of_mem_erase hr
      server := Or.inl rfl }
  cases hcases with
  | tick hle =>
      exact
        { node := rfl
          now := hle
          own := fun r hr _ => hr
          server := Or.inl rfl }
  | @node _ j input effect hfeeds hstep =>
      have hj : j ≠ i := by
        rintro rfl
        exact hactor hfeeds.actor
      refine ⟨?_, DateTime.le_refl _, ?_, Or.inl rfl⟩
      · exact Function.update_of_ne (Ne.symm hj) _ _
      · intro req hreq hsender
        rcases Sys.mem_advance_requests.mp hreq with hold | ⟨body, -, rfl⟩
        · exact hold
        · exact absurd hsender hj
  | serve => exact hsame
  | @apply req version call spec hmem hbody hversion hnew happly =>
      refine ⟨rfl, DateTime.le_refl _, fun r hr _ => List.mem_of_mem_erase hr, Or.inr ?_⟩
      refine ⟨version, some spec, hnew, rfl, fun hclean => ?_⟩
      by_cases hsender : req.sender = i
      · exact absurd hversion (hclean req hmem hsender call hbody)
      · exact hinv.holder_of_foreign hmem hsender hbody hversion happly
  -- These answer a request and change nothing else.
  | conflict => exact hsame
  | refuse => exact hsame
  | lose =>
      exact
        { node := rfl
          now := DateTime.le_refl _
          own := fun r hr _ => List.mem_of_mem_erase hr
          server := Or.inl rfl }

/-- A new answer to the manager is justified when it is given. -/
theorem Intact.answer_outside (hinv : Intact i claimant params s) {a : Action ι}
    {ret : Option Return} (hcases : Sys.Cases profile s a t ret)
    (hactor : a.actor ≠ some i) {id : Nat} {body : Body}
    {result : Except Error LeaseResource}
    (hawaits : (s.nodes i).awaits = some (id, body))
    (hresponse : ⟨⟨id, i, body⟩, result⟩ ∈ t.responses) :
    AnswerOk t i claimant body result := by
  have hout := hinv.outside hactor hcases
  have hissued := hinv.ownIssued
  have hold : ⟨⟨id, i, body⟩, result⟩ ∈ s.responses →
      AnswerOk t i claimant body result := fun hmem =>
    (hinv.answers id body result hawaits hmem).outside hout hissued
  cases hcases with
  | tick => exact hold hresponse
  | node => exact hold hresponse
  | lose => exact hold hresponse
  | serve hmem hbody =>
      rcases List.mem_cons.mp hresponse with hnew | hmem'
      · obtain ⟨rfl, rfl⟩ := Response.mk.inj hnew
        obtain rfl : body = .get := hbody
        rintro version ⟨⟩
        -- A read is only awaited by a clean manager, so it is settled at what was read.
        have hclean := hinv.pcReady.clean_of_getting hawaits
        exact ⟨hout.clean hissued hclean, fun _ => rfl⟩
      · exact hold hmem'
  | @apply req version call spec hmem hbody hversion hnew' happly =>
      rcases List.mem_cons.mp hresponse with hnew | hmem'
      · obtain ⟨rfl, rfl⟩ := Response.mk.inj hnew
        obtain rfl : body = .patch call := hbody
        -- The write has issued a new version, so no older patch of the manager applies.
        have hclean := hout.clean_of_write hissued hnew' rfl
        cases call with
        | claim write =>
            rintro v ⟨⟩
            exact ⟨hclean, fun _ => rfl⟩
        | vacate v c =>
            refine ⟨hclean, ?_⟩
            intro hholder
            change holderOf (some spec) = some claimant at hholder
            rw [(applyTo_vacate happly).1] at hholder
            cases hholder
      · exact hold hmem'
  | @conflict req call hmem hbody hversion =>
      rcases List.mem_cons.mp hresponse with hnew | hmem'
      · obtain ⟨rfl, rfl⟩ := Response.mk.inj hnew
        obtain rfl : body = .patch call := hbody
        cases call with
        | claim write =>
            intro _
            -- A conflict shows that the version of the write, the only one at stake, is gone.
            obtain ⟨p, hpc⟩ := Node.awaits_claim_iff.mp hawaits
            have hready := hinv.pcReady
            unfold PcReady at hready
            rw [hpc] at hready
            exact hout.clean hissued (Behind.clean hready hversion)
        | vacate v c => trivial
      · exact hold hmem'
  | @refuse req code hmem hcode =>
      rcases List.mem_cons.mp hresponse with hnew | hmem'
      · obtain ⟨rfl, rfl⟩ := Response.mk.inj hnew
        cases body with
        | get => trivial
        | patch call =>
            cases call with
            | claim write =>
                intro hconflict
                rw [hcode] at hconflict
                cases hconflict
            | vacate v c => trivial
      · exact hold hmem'

omit [DecidableEq ι] in
/-- Actions of the others make calls for other claimants only. -/
theorem obeys_among {a : Action ι} (hactor : a.actor ≠ some i)
    (hforeign : a.Obeys (Spawned.foreign claimant)) :
    a.Obeys (among i claimant params) := by
  cases a with
  | call j op =>
      have hj : j ≠ i := fun hj => hactor (congrArg some hj)
      exact ⟨fun h => absurd h hj, fun _ => hforeign⟩
  | _ => trivial

/-- An action of anybody else keeps the system part of the invariant. -/
theorem Intact.step_outside (hinv : Intact i claimant params s) {a : Action ι}
    {ret : Option Return} (hactor : a.actor ≠ some i)
    (hforeign : a.Obeys (Spawned.foreign claimant))
    (hperform : s.perform profile a = some (t, ret)) :
    Intact i claimant params t := by
  have hcases := Sys.perform_cases hperform
  have hobeys : a.Obeys (among i claimant params) := obeys_among hactor hforeign
  have hout := hinv.outside hactor hcases
  have hstep : Sys.Step profile s a t := by
    unfold Sys.Step Sys.step?
    rw [hperform]
    rfl
  refine ⟨hinv.knows.step (holding_sound profile _) ⟨hstep, hobeys⟩, ?_,
    hinv.numbered.cases hcases, ?_, hinv.pcReady.outside hout hinv.ownIssued⟩
  · intro req hreq hsender call hbody
    have hold : req ∈ s.requests → call.claimant ≠ claimant := fun hmem =>
      hinv.foreign req hmem hsender call hbody
    cases hcases with
    | tick => exact hold hreq
    | @node _ j input effect hfeeds hnode =>
        rcases Sys.mem_advance_requests.mp hreq with hmem | ⟨body, hsend, rfl⟩
        · exact hold hmem
        · obtain rfl : body = .patch call := hbody
          exact hinv.foreign_of_sent hsender hfeeds hobeys hnode hsend
    | serve | apply | conflict | refuse | lose =>
        exact hold (List.mem_of_mem_erase hreq)
  · intro id body result hawaits hresponse
    rw [hout.node] at hawaits
    exact hinv.answer_outside hcases hactor hawaits hresponse

end Others

end Lease
end Kubert
