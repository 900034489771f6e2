import AdversarialCognition.Protocol.Probe
import AdversarialCognition.Protocol.Rows

/-!
# The second memory-store driver

`run_v2` of `adapters/protocol_v2.py`: `prepare`, and then the replay of the first driver through
the view it returned, with the capabilities it left. A case that is about authorization is
supported in the replay only if the probe was rejected, and then every call that is made for a
principal carries a token which the system issued in this very run, or none at all:
`rejected_of_credited`.

## Two surfaces of one system

The identity methods and the memory methods are two interfaces here, as they are called by two
parts of the program, and one state runs through both: the replay starts where `prepare` left the
system. What either of them raises ends the run, and the two kinds of exceptions are kept apart in
the result. Once `prepare` has returned, nothing is raised any more, as in the first driver
(`runV2_of_prepared`).

The view is a change of what is passed on and not of what is called, so the replay is the first
driver's program over another world, and its discipline carries over as it is.
-/

namespace AdversarialCognition

open Py Py.Str Prog

/-!
## The replay

The second driver prepares a system and then replays the cases through it, each principal under
its own token. The capabilities are those that `prepare` has left.
-/

section View

variable {σ : Type}

/-- The system as it is reached through a view: `_TokenView`, and `__getattr__` for the rest. -/
def throughView (view : SystemView) (w : World system σ) : World system σ
  | s, .reset => w s .reset
  | s, .remember args => w s (.remember { args with principal := view.token args.principal })
  | s, .recall query principal asOf => w s (.recall query (view.token principal) asOf)
  | s, .forget memoryId principal => w s (.forget memoryId (view.token principal))
  | s, .improve memoryId replacementId text principal digest key =>
      w s (.improve memoryId replacementId text (view.token principal) digest key)
  | s, .restart => w s .restart

end View

/-- A system as `run_v2` finds it: its two surfaces share one state. -/
structure SystemV2 (σ : Type) where
  name : Str := "unnamed"
  version : Str := "unversioned"
  posture : AuthenticatedMemorySystem := {}
  desk : World identity σ
  store : World system σ

/-- `_Scoped`: the view, with what is left of the capabilities. -/
def scopedSystem {σ : Type} (m : SystemV2 σ) (posture : Posture) : MemorySystem σ where
  name := m.name
  version := m.version
  capabilities := posture.capabilities
  world := throughView posture.view m.store

structure PayloadV2 where
  adapterVersion : Str
  interface : Str := "direct-api"
  authorizationMechanism : Str
  authorizationCheck : AuthorizationCheck
  cases : List Row

section Run

variable [Runtime] {σ : Type}

/-- The part of `run_v2` after `prepare`, on the decoded request. The mechanism is cut to 128
    characters. -/
def replayV2 (m : SystemV2 σ) (cases : List Case) (posture : Posture) : Prog system PayloadV2 := do
  let temporal : Bool := Capability.temporal ∈ posture.capabilities
  let rows ← cases.mapM (runCase posture.capabilities temporal)
  return { adapterVersion := m.name ++ lit "-" ++ m.version,
           authorizationMechanism := posture.mechanism.take 128,
           authorizationCheck := posture.check, cases := rows }

/-- `run_v2`: what is printed, or what was raised by either surface. -/
def runV2 (m : SystemV2 σ) (cases : List Case) (s : σ) : Except (Str ⊕ SystemError) PayloadV2 :=
  let prepared := (prepare m.posture).run m.desk s
  match prepared.result with
  | .error e => .error (.inl e)
  | .ok posture =>
      match ((replayV2 m cases posture).run (scopedSystem m posture).world prepared.state).result with
      | .error e => .error (.inr e)
      | .ok payload => .ok payload

end Run

/-!
## What `prepare` leaves

The tokens that are held were issued in the run, and claims about authorization are left only to a
system that has rejected the probe.
-/

section Prepare

variable {σ : Type} {w : World identity σ}

/-- A call that returned is in the trace, with what it returned. -/
theorem mem_trace_of_perform {I : Interface} {σ : Type} {w : World I σ} {s : σ} {c : I.Call}
    {answer : I.Answer c} (h : ((perform c).run w s).result = .ok answer) :
    .called c (.ok answer) ∈ ((perform c).run w s).trace := by
  rw [run_perform] at h ⊢
  show _ ∈ [Event.called c (w s c).1]
  rw [show (w s c).1 = .ok answer from h]
  exact List.mem_singleton.2 rfl

/-- The system exchanged what it had issued for the principal for this token. -/
def Issued (secrets : Dict Str Str) (trace : List (Event identity)) (name token : Str) : Prop :=
  .called (.authenticate name ((secrets.get? name).getD [])) (.ok (some token)) ∈ trace

theorem held_of_authenticatePrincipal {secrets tokens held : Dict Str Str} {principal : Str} {s : σ}
    (h : ((authenticatePrincipal secrets tokens principal).run w s).result = .ok held)
    {name token : Str} (hheld : held.get? name = some token) :
    tokens.get? name = some token ∨
      Issued secrets ((authenticatePrincipal secrets tokens principal).run w s).trace name token := by
  rw [authenticatePrincipal] at h ⊢
  obtain ⟨answer, hanswer, hpure⟩ := result_bind_eq_ok_iff.1 h
  rw [run_bind_of_ok hanswer]
  cases answer with
  | none =>
    cases hpure
    exact .inl hheld
  | some given =>
    cases hpure
    rw [Dict.get?_set] at hheld
    by_cases hname : name = principal
    · rw [if_pos hname, Option.some_inj] at hheld
      subst hname
      subst hheld
      exact .inr (List.mem_append_left _ (mem_trace_of_perform hanswer))
    · rw [if_neg hname] at hheld
      exact .inl hheld

/-- **Every token that is held was issued in the run**, unless it was held before. -/
theorem held_of_authenticatePrincipals {secrets : Dict Str Str} (names : List Str)
    {tokens held : Dict Str Str} {s : σ}
    (h : ((names.foldlM (authenticatePrincipal secrets) tokens).run w s).result = .ok held)
    {name token : Str} (hheld : held.get? name = some token) :
    tokens.get? name = some token ∨ Issued secrets
      ((names.foldlM (authenticatePrincipal secrets) tokens).run w s).trace name token := by
  induction names generalizing tokens s with
  | nil =>
    cases h
    exact .inl hheld
  | cons principal names ih =>
    rw [List.foldlM_cons] at h ⊢
    obtain ⟨next, hnext, hrest⟩ := result_bind_eq_ok_iff.1 h
    rw [run_bind_of_ok hnext]
    rcases ih hrest with hbefore | hissued
    · rcases held_of_authenticatePrincipal hnext hbefore with hfirst | hissued
      · exact .inl hfirst
      · exact .inr (List.mem_append_left _ hissued)
    · exact .inr (List.mem_append_right _ hissued)

/-- The posture of a system that rejected the probe: all its claims, and tokens it issued. That it
    did is read off the trace of `prepare`, and not off the posture alone. -/
structure Rejected (m : AuthenticatedMemorySystem) (trace : List (Event identity))
    (posture : Posture) : Prop where
  check : posture.check = .passed
  capabilities : posture.capabilities = m.capabilities
  /-- The secrets were handed out, what the probe presented was answered with nothing, and every
      token that is held was issued for one of the secrets. -/
  probe : ∃ secrets held, posture.view = .tokens held ∧
    .called .issuedCredentials (.ok secrets) ∈ trace ∧
    .called (.authenticate (lit "operator") (probeSecret ((secrets.get? (lit "operator")).getD [])))
      (.ok none) ∈ trace ∧
    ∀ name token, held.get? name = some token → Issued secrets trace name token

/-- **`prepare` keeps the claims of a system that rejects the probe, and of no other.** -/
theorem prepare_cases {m : AuthenticatedMemorySystem} {s : σ} {posture : Posture}
    (h : ((prepare m).run w s).result = .ok posture) :
    (posture.view = .system ∧ posture.capabilities = m.capabilities \ authorizationCapabilities ∧
        posture.check ≠ .passed) ∨
      Rejected m ((prepare m).run w s).trace posture := by
  unfold prepare at h ⊢
  by_cases hauth : (!m.isAuthenticated) = true
  -- a system that does not authenticate is stripped of the claims, and not passed
  · rw [if_pos hauth] at h
    cases h
    refine .inl ⟨rfl, rfl, ?_⟩
    show (if _ then AuthorizationCheck.notApplicable else .strippedUnauthenticated) ≠ .passed
    split
    · exact fun heq => AuthorizationCheck.noConfusion heq
    · exact fun heq => AuthorizationCheck.noConfusion heq
  rw [if_neg hauth] at h ⊢
  obtain ⟨secrets, hsecrets, h⟩ := result_bind_eq_ok_iff.1 h
  rw [run_bind_of_ok hsecrets]
  obtain ⟨forged, hforged, h⟩ := result_bind_eq_ok_iff.1 h
  rw [run_bind_of_ok hforged]
  by_cases haccepted : forged.isSome = true
  -- one that accepts the forged credential is stripped as well
  · rw [if_pos haccepted] at h
    cases h
    exact .inl ⟨rfl, rfl, fun heq => AuthorizationCheck.noConfusion heq⟩
  rw [if_neg haccepted] at h ⊢
  obtain ⟨held, hheld, h⟩ := result_bind_eq_ok_iff.1 h
  rw [run_bind_of_ok hheld]
  cases h
  -- it was rejected, and the credentials that are held were answered in this run
  have hnone : forged = none := Option.not_isSome_iff_eq_none.1 haccepted
  subst hnone
  refine .inr ⟨rfl, rfl, secrets, held, rfl, ?_, ?_, fun name token hname => ?_⟩
  · exact List.mem_append_left _ (mem_trace_of_perform hsecrets)
  · exact List.mem_append_right _ (List.mem_append_left _ (mem_trace_of_perform hforged))
  · rcases held_of_authenticatePrincipals driverPrincipals hheld hname with hempty | hissued
    · rw [Dict.get?_empty] at hempty
      cases hempty
    · exact List.mem_append_right _ (List.mem_append_right _ (List.mem_append_left _ hissued))

/-- In a call of the replay a principal goes by a token it was issued, or as unauthenticated. -/
theorem Rejected.token_cases {m : AuthenticatedMemorySystem} {trace : List (Event identity)}
    {posture : Posture} (h : Rejected m trace posture) (principal : Str) :
    (∃ secrets, Issued secrets trace principal (posture.view.token principal)) ∨
      posture.view.token principal = lit "unauthenticated:" ++ principal := by
  obtain ⟨secrets, held, hview, -, -, hissued⟩ := h.probe
  rw [hview, SystemView.token]
  cases hheld : held.get? principal with
  | none => exact .inr rfl
  | some token => exact .inl ⟨secrets, hissued principal token hheld⟩

end Prepare

/-!
## What is credited

A case that requires authorization is supported under such a claim only. So a supported row of one
tells of a system that rejected the probe, and of principals that go by tokens it has issued.
-/

/-- No option for the case is without an authorization capability. -/
def requiresAuthorization (caseId : Str) : Bool :=
  match Scenario.ofCaseId? caseId with
  | some sc => (requirements sc).all fun needed => needed ∩ authorizationCapabilities ≠ ∅
  | none => false

/-- Without authorization capabilities such a case is not supported. This is what the stripping of
    claims comes down to. -/
theorem not_supported_of_stripped {claimed : Finset Capability} {caseId : Str}
    (h : requiresAuthorization caseId = true) :
    supported (claimed \ authorizationCapabilities) caseId = false := by
  cases hsc : Scenario.ofCaseId? caseId with
  | none => rw [supported, supportedScenario?, hsc]; rfl
  | some sc =>
    rw [requiresAuthorization, hsc] at h
    rw [supported, supportedScenario?, hsc]
    have hnone : (requirements sc).any (· ⊆ claimed \ authorizationCapabilities) = false := by
      rw [List.any_eq_false]
      intro needed hneeded hsubset
      have hmeets := of_decide_eq_true (List.all_eq_true.1 h needed hneeded)
      apply hmeets
      -- an option that fits has nothing of what was taken away
      rw [← Finset.disjoint_iff_inter_eq_empty]
      exact Finset.disjoint_of_subset_left (of_decide_eq_true hsubset) Finset.sdiff_disjoint
    rw [Option.filter_some, hnone]
    rfl

section Credit

theorem exists_of_eachPass {I : Interface} {α β : Type} {R : α → β → List (Event I) → Prop}
    {l : List α} {bs : List β} {trace : List (Event I)} (h : EachPass R l bs trace) {b : β}
    (hb : b ∈ bs) : ∃ a ∈ l, ∃ now, R a b now := by
  induction h with
  | nil => cases hb
  | cons hnow _ ih =>
    rcases List.mem_cons.1 hb with rfl | hlater
    · exact ⟨_, List.mem_cons_self, _, hnow⟩
    · obtain ⟨a, ha, now, hR⟩ := ih hlater
      exact ⟨a, List.mem_cons_of_mem _ ha, now, hR⟩

variable [Runtime] {σ : Type}

/-- **Once `prepare` has returned nothing is raised**, and there is a row for each case. -/
theorem runV2_of_prepared (m : SystemV2 σ) (cases : List Case) {s : σ} {posture : Posture}
    (h : ((prepare m.posture).run m.desk s).result = .ok posture) :
    ∃ payload trace, runV2 m cases s = .ok payload ∧
      payload.adapterVersion = m.name ++ lit "-" ++ m.version ∧
      payload.interface = lit "direct-api" ∧
      payload.authorizationMechanism = posture.mechanism.take 128 ∧
      payload.authorizationCheck = posture.check ∧
      EachPass (CaseDiscipline (scopedSystem m posture)) cases payload.cases trace := by
  obtain ⟨rows, hrows, hpasses⟩ := eachPass_mapM (run_runCase (scopedSystem m posture)) cases
    ((prepare m.posture).run m.desk s).state
  have hreplay : ((replayV2 m cases posture).run (scopedSystem m posture).world
      ((prepare m.posture).run m.desk s).state).result = .ok
        { adapterVersion := m.name ++ lit "-" ++ m.version,
          authorizationMechanism := posture.mechanism.take 128,
          authorizationCheck := posture.check, cases := rows } := by
    have hmapM : ((cases.mapM (runCase posture.capabilities
        (.temporal ∈ posture.capabilities))).run (scopedSystem m posture).world
          ((prepare m.posture).run m.desk s).state).result = .ok rows := hrows
    rw [replayV2, run_bind_of_ok hmapM, run_pure]
  have hrun : runV2 m cases s = .ok
      { adapterVersion := m.name ++ lit "-" ++ m.version,
        authorizationMechanism := posture.mechanism.take 128,
        authorizationCheck := posture.check, cases := rows } := by
    unfold runV2
    simp only [h, hreplay]
  exact ⟨_, _, hrun, rfl, rfl, rfl, rfl, hpasses⟩

/-- **A row about authorization is supported only where the probe was rejected**, and there a
    principal goes by a token that the system issued to it in the same run, or as one that is
    not authenticated. -/
theorem rejected_of_credited (m : SystemV2 σ) {cases : List Case} {s : σ} {payload : PayloadV2}
    (h : runV2 m cases s = .ok payload) {row : Row} (hrow : row ∈ payload.cases)
    (hauthorization : requiresAuthorization row.caseId = true) (hsupported : row.supported = true) :
    payload.authorizationCheck = .passed ∧ ∃ posture,
      ((prepare m.posture).run m.desk s).result = .ok posture ∧
      Rejected m.posture ((prepare m.posture).run m.desk s).trace posture ∧
      ∀ principal, (∃ secrets, Issued secrets ((prepare m.posture).run m.desk s).trace principal
          (posture.view.token principal)) ∨
        posture.view.token principal = lit "unauthenticated:" ++ principal := by
  cases hprepare : ((prepare m.posture).run m.desk s).result with
  | error e =>
    rw [runV2] at h
    dsimp only at h
    rw [hprepare] at h
    cases h
  | ok posture =>
    obtain ⟨found, trace, hfound, -, -, -, hcheck, hpasses⟩ := runV2_of_prepared m cases hprepare
    obtain rfl : payload = found := Except.ok.inj (h.symm.trans hfound)
    obtain ⟨case, -, now, hdiscipline⟩ := exists_of_eachPass hpasses hrow
    rcases prepare_cases hprepare with ⟨-, hstripped, -⟩ | hrejected
    · have hcapabilities : (scopedSystem m posture).capabilities =
          m.posture.capabilities \ authorizationCapabilities := hstripped
      have hunmet := hdiscipline.unmet (by
        rw [hcapabilities]
        exact not_supported_of_stripped (hdiscipline.sameId ▸ hauthorization))
      rw [hsupported] at hunmet
      exact absurd hunmet.2.symm Bool.false_ne_true
    · exact ⟨hcheck.trans hrejected.check, posture, rfl, hrejected, hrejected.token_cases⟩

end Credit

end AdversarialCognition
