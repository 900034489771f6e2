import AdversarialCognition.Harness.Failures

/-!
# The negative-credential probe

`adapters/protocol_v2.py`, up to the replay: what `prepare` makes of a system before any case,
next to `_provision` of the agent-memory driver. Both present the operator's secret with its last
character replaced, and expect it to be rejected. The replacement is always the same, so a secret
that ends in it is presented as it is: `probe_classifies_iff`.

## Honest desks

The two drivers ask through different interfaces for the same two things, the credentials that
were issued and whether one of them is accepted. `Honest` is about a pair of such functions, and
is instantiated for both. An honest desk accepts just what it has issued, and it may change in any
other way from call to call; that the table of what it has issued stays is all that is asked of
its state. It has a credential for the operator and none that is empty, as an empty secret is what
a driver presents for a principal that has none.

A desk that is not honest is left to the two drivers' own results. Here the question is only what
the probe makes of one that is.
-/

namespace AdversarialCognition

open Py Py.Str Prog

/-!
## What `prepare` calls

The two methods of a system that authenticates, and the views through which it is then reached.
-/

/-- The methods of a system that authenticates. -/
inductive IdentityCall
  | issuedCredentials
  | authenticate (name secret : Str)

@[reducible] def IdentityCall.Answer : IdentityCall → Type
  | .issuedCredentials => Dict Str Str
  | .authenticate _ _ => Option Str

@[reducible] def identity : Interface where
  Call := IdentityCall
  Answer := IdentityCall.Answer
  Error := Str
  Note := Empty

/-- What `prepare` reads of a system. Any system with the two methods is authenticated. -/
structure AuthenticatedMemorySystem where
  capabilities : Finset Capability := ∅
  authorizationMechanism : Str := "none"
  isAuthenticated : Bool := true

/-- The system itself, or a `_TokenView` of it. -/
inductive SystemView
  | system
  | tokens (held : Dict Str Str)

/-- `_token`: what stands for a principal in the calls through a view. -/
def SystemView.token : SystemView → Str → Str
  | .system, principal => principal
  | .tokens held, principal => (held.get? principal).getD (lit "unauthenticated:" ++ principal)

/-- What `prepare` returns. -/
structure Posture where
  view : SystemView
  capabilities : Finset Capability
  mechanism : Str
  check : AuthorizationCheck

/-!
## The probe and the tokens

The probe presents the operator's secret with its last character replaced. A system that accepts
it keeps its surface and loses its claims about authorization.
-/

def authenticatePrincipal (secrets tokens : Dict Str Str) (principal : Str) :
    Prog identity (Dict Str Str) := do
  let token ← perform (I := identity) (.authenticate principal ((secrets.get? principal).getD []))
  return match token with
    | some token => tokens.set principal token
    | none => tokens

/-- The system is not believed: it keeps its surface and loses its authorization claims. -/
def stripped (system : AuthenticatedMemorySystem) (mechanism : Str) (check : AuthorizationCheck) :
    Posture where
  view := .system
  capabilities := system.capabilities \ authorizationCapabilities
  mechanism := mechanism
  check := check

/-- `prepare`. A system that does not authenticate is not probed, and one that accepts the probe
    is not asked for tokens. -/
def prepare (system : AuthenticatedMemorySystem) : Prog identity Posture :=
  if !system.isAuthenticated then
    return stripped system "none" <|
      if system.capabilities ∩ authorizationCapabilities = ∅ then .notApplicable
      else .strippedUnauthenticated
  else do
    let secrets ← perform (I := identity) .issuedCredentials
    let secret := probeSecret ((secrets.get? (lit "operator")).getD [])
    let forged ← perform (I := identity) (.authenticate "operator" secret)
    if forged.isSome then
      return stripped system system.authorizationMechanism .failedNegativeProbe
    else do
      let tokens ← driverPrincipals.foldlM (authenticatePrincipal secrets) .empty
      return { view := .tokens tokens, capabilities := system.capabilities,
               mechanism := system.authorizationMechanism, check := .passed }

/-!
## Honest desks

A desk that issues credentials and accepts exactly what it has issued. It accepts the probe only
if the probe is the secret, which is when the secret ends in the replacement.
-/

/-- Credentials are issued, one to the operator and none of them empty, and exactly those
    issued are accepted. The rest of the state may change at every call. -/
structure Honest {σ ε α : Type} (issue : σ → Except ε (Dict Str Str) × σ)
    (accept : σ → Str → Str → Except ε (Option α) × σ) (issued : σ → Dict Str Str) : Prop where
  issues : ∀ s, (issue s).1 = .ok (issued (issue s).2)
  operator : ∀ s, ∃ secret, (issued s).get? (lit "operator") = some secret
  nonempty : ∀ s name secret, (issued s).get? name = some secret → secret ≠ []
  accepts : ∀ s name secret, ∃ r, (accept s name secret).1 = .ok r ∧
    (r.isSome = true ↔ (issued s).get? name = some secret)
  keeps : ∀ s name secret, issued (accept s name secret).2 = issued s

/-- An honest system of the direct driver. -/
abbrev HonestSystem {σ : Type} (w : World identity σ) (issued : σ → Dict Str Str) : Prop :=
  Honest (fun s => w s .issuedCredentials) (fun s name secret => w s (.authenticate name secret))
    issued

/-- An honest backend of the agent-memory driver. -/
abbrev HonestBackend {σ τ : Type} (w : World (harness τ) σ) (issued : σ → Dict Str Str) : Prop :=
  Honest (fun s => w s .provision) (fun s name secret => w s (.openSession ⟨name, secret⟩)) issued

/-- The secret ends in the character the probe replaces the last one by. -/
def EndsInReplacement (secret : Str) : Prop := secret.getLast? = some (CodePoint.ofChar 'x')

/-- **The probe differs from the secret unless that ends in the replacement.** -/
theorem probeSecret_eq_iff {secret : Str} (hne : secret ≠ []) :
    probeSecret secret = secret ↔ EndsInReplacement secret := by
  have hsplit := List.dropLast_append_getLast hne
  have hprobe : probeSecret secret = secret.dropLast ++ [CodePoint.ofChar 'x'] := if_pos hne
  rw [EndsInReplacement, List.getLast?_eq_some_getLast hne, Option.some_inj, hprobe]
  constructor
  · intro h
    have htails := List.append_cancel_left (h.trans hsplit.symm)
    exact (List.singleton_inj.mp htails).symm
  · intro h
    rw [← h]
    exact hsplit

section Desk

variable {σ ε α : Type} {issue : σ → Except ε (Dict Str Str) × σ}
  {accept : σ → Str → Str → Except ε (Option α) × σ} {issued : σ → Dict Str Str}

/-- **An honest desk accepts the probe exactly when the operator's secret ends in the
    replacement.** -/
theorem Honest.accepts_probe (h : Honest issue accept issued) {s : σ} {secret : Str}
    (hsecret : (issued s).get? (lit "operator") = some secret) :
    ∃ r, (accept s (lit "operator") (probeSecret secret)).1 = .ok r ∧
      (r.isSome = true ↔ EndsInReplacement secret) := by
  obtain ⟨r, hr, haccepts⟩ := h.accepts s (lit "operator") (probeSecret secret)
  refine ⟨r, hr, haccepts.trans ?_⟩
  rw [hsecret, Option.some_inj, eq_comm]
  exact probeSecret_eq_iff (h.nonempty s _ secret hsecret)

/-- What a driver presents for a principal is accepted if there is something to present. For one
    without a credential it presents the empty text, which was not issued. -/
theorem Honest.accepts_issued (h : Honest issue accept issued) (s : σ) (name : Str) :
    ∃ r, (accept s name (((issued s).get? name).getD [])).1 = .ok r ∧
      (r.isSome = true ↔ ((issued s).get? name).isSome = true) := by
  obtain ⟨r, hr, haccepts⟩ := h.accepts s name (((issued s).get? name).getD [])
  refine ⟨r, hr, haccepts.trans ?_⟩
  cases (issued s).get? name with
  | none => simp
  | some secret => simp

end Desk

section Prepare

variable {σ : Type} {w : World identity σ} {issued : σ → Dict Str Str}

theorem ends_authenticatePrincipal (h : HonestSystem w issued) (s : σ) (tokens : Dict Str Str)
    (name : Str) :
    ∃ tokens' t, Ends w s (authenticatePrincipal (issued s) tokens name) [] tokens' t ∧
      issued t = issued s ∧ ∀ j, (tokens'.get? j).isSome = true ↔
        (tokens.get? j).isSome = true ∨ (j = name ∧ ((issued s).get? j).isSome = true) := by
  obtain ⟨r, hr, hissued⟩ := h.accepts_issued s name
  refine ⟨_, _, ends_perform_bind (Prod.ext hr rfl) (ends_pure _), h.keeps s name _, fun j => ?_⟩
  cases r with
  | none =>
    have hnone : ¬ (j = name ∧ ((issued s).get? j).isSome = true) := by
      intro hj
      exact absurd (hissued.mpr (hj.1 ▸ hj.2)) Bool.false_ne_true
    exact (or_iff_left hnone).symm
  | some token =>
    rw [Dict.get?_set]
    by_cases hj : j = name
    · subst hj
      simp [hissued.mp rfl]
    · simp [hj]

theorem ends_authenticatePrincipals (h : HonestSystem w issued) (names : List Str) (s : σ) :
    ∃ tokens t, Ends w s (names.foldlM (authenticatePrincipal (issued s)) .empty) [] tokens t ∧
      ∀ j, (tokens.get? j).isSome = true ↔ j ∈ names ∧ ((issued s).get? j).isSome = true := by
  -- what is issued stays, and the tokens so far are those of the names so far
  have hloop := ends_foldlM (w := w) (f := authenticatePrincipal (issued s))
    (R := fun done tokens t => issued t = issued s ∧ ∀ j, (tokens.get? j).isSome = true ↔
      j ∈ done ∧ ((issued s).get? j).isSome = true)
    (fun done name tokens u hinv => by
      obtain ⟨tokens', t, hends, hkeeps, hget⟩ := ends_authenticatePrincipal h u tokens name
      rw [hinv.1] at hends hkeeps hget
      refine ⟨tokens', t, hends, hkeeps, fun j => ?_⟩
      rw [hget, hinv.2, List.mem_append, List.mem_singleton, or_and_right])
  obtain ⟨tokens, t, hends, -, hget⟩ := hloop names (b := .empty) (s := s) ⟨rfl, by simp⟩
  exact ⟨tokens, t, hends, hget⟩

/-- The posture of a system that passed: all its claims, and a token for every principal of
    the driver that has a credential. -/
structure PreparedInFull (system : AuthenticatedMemorySystem) (issued : Dict Str Str)
    (posture : Posture) : Prop where
  check : posture.check = .passed
  capabilities : posture.capabilities = system.capabilities
  tokens : ∃ held, posture.view = .tokens held ∧
    ∀ name ∈ driverPrincipals, (issued.get? name).isSome = true →
      (held.get? name).isSome = true

section Probed

variable {s : σ} {secret : Str}

theorem ends_prepare_of_accepted (h : HonestSystem w issued) {system : AuthenticatedMemorySystem}
    (hauth : system.isAuthenticated = true)
    (hsecret : (issued (w s .issuedCredentials).2).get? (lit "operator") = some secret)
    (hx : EndsInReplacement secret) :
    ∃ t, Ends w s (prepare system) []
      (stripped system system.authorizationMechanism .failedNegativeProbe) t := by
  obtain ⟨r, hr, hprobe⟩ := h.accepts_probe hsecret
  refine ⟨(w (w s .issuedCredentials).2 (.authenticate (lit "operator") (probeSecret secret))).2, ?_⟩
  rw [prepare, hauth]
  refine ends_perform_bind (Prod.ext (h.issues s) rfl) ?_
  rw [hsecret]
  refine ends_perform_bind (Prod.ext hr rfl) ?_
  rw [if_pos (hprobe.mpr hx)]
  exact ends_pure _

theorem ends_prepare_of_rejected (h : HonestSystem w issued) {system : AuthenticatedMemorySystem}
    (hauth : system.isAuthenticated = true)
    (hsecret : (issued (w s .issuedCredentials).2).get? (lit "operator") = some secret)
    (hx : ¬ EndsInReplacement secret) :
    ∃ posture t, Ends w s (prepare system) [] posture t ∧
      PreparedInFull system (issued (w s .issuedCredentials).2) posture := by
  obtain ⟨r, hr, hprobe⟩ := h.accepts_probe hsecret
  have hkeeps := h.keeps (w s .issuedCredentials).2 (lit "operator") (probeSecret secret)
  obtain ⟨held, t, hheld, hget⟩ := ends_authenticatePrincipals h driverPrincipals
    (w (w s .issuedCredentials).2 (.authenticate (lit "operator") (probeSecret secret))).2
  rw [hkeeps] at hheld hget
  refine ⟨⟨.tokens held, system.capabilities, system.authorizationMechanism, .passed⟩, t, ?_,
    rfl, rfl, held, rfl, fun name hname hissued => ?_⟩
  · rw [prepare, hauth]
    refine ends_perform_bind (Prod.ext (h.issues s) rfl) ?_
    rw [hsecret]
    refine ends_perform_bind (Prod.ext hr rfl) ?_
    rw [if_neg (mt hprobe.mp hx)]
    exact hheld.silent_bind (ends_pure _)
  · exact (hget name).mpr ⟨hname, hissued⟩

end Probed

end Prepare

section Provision

variable {σ τ : Type} {w : World (harness τ) σ} {issued : σ → Dict Str Str}

theorem ends_openSessions (h : HonestBackend w issued) (secrets : Dict Str Str)
    (names : List Str) (s : σ) (sessions : Dict Str τ) :
    ∃ sessions' t, Ends w s (names.foldlM (openSession secrets) sessions) [] sessions' t ∧
      issued t = issued s := by
  refine ends_foldlM (R := fun _ _ t => issued t = issued s) (fun _ name sessions u hinv => ?_)
    names rfl
  obtain ⟨r, hr, _⟩ := h.accepts u name ((secrets.get? name).getD [])
  exact ⟨_, _, ends_perform_bind (Prod.ext hr rfl) (ends_pure _), (h.keeps u name _).trans hinv⟩

theorem ends_provision (h : HonestBackend w issued) {capabilities : Finset Capability}
    (hclaims : capabilities ∩ authorizationCapabilities ≠ ∅) (track : Track τ) {s : σ}
    {secret : Str} (hsecret : (issued (w s .provision).2).get? (lit "operator") = some secret) :
    ∃ ns track' t, Ends w s (provision capabilities track) ns track' t ∧
      (track'.check = .passed ↔ ¬ EndsInReplacement secret) := by
  obtain ⟨sessions, u, hsessions, hkeeps⟩ := ends_openSessions h (issued (w s .provision).2)
    driverPrincipals (w s .provision).2 .empty
  rw [← hkeeps] at hsecret
  obtain ⟨r, hr, hprobe⟩ := h.accepts_probe hsecret
  refine ⟨[.probe r.isSome], ⟨sessions, if r.isSome then .failedNegativeProbe else .passed⟩,
    (w u (.openSession ⟨lit "operator", probeSecret secret⟩)).2, ?_, ?_⟩
  · refine ends_perform_bind (Prod.ext (h.issues s) rfl) (hsessions.silent_bind ?_)
    rw [if_pos hclaims, ← hkeeps, hsecret]
    exact ends_perform_bind (Prod.ext hr rfl) (ends_noting_bind (ends_pure _))
  · rw [← hprobe]
    cases r with
    | none => simp
    | some session => simp

end Provision

/-!
## The law

The probe should tell honest systems from others, in both drivers. Both put the probe together in
the same way, and so both are wrong about the same secrets.
-/

section Law

variable {σ ρ τ : Type} {w : World identity σ} {issued : σ → Dict Str Str}
  {v : World (harness τ) ρ} {granted : ρ → Dict Str Str} {secret : Str}

/-- `prepare` keeps an honest system's claims exactly if the probe is not the secret. -/
theorem prepare_passes_iff (h : HonestSystem w issued) {system : AuthenticatedMemorySystem}
    (hauth : system.isAuthenticated = true) {s : σ}
    (hsecret : (issued (w s .issuedCredentials).2).get? (lit "operator") = some secret) :
    (∃ posture, ((prepare system).run w s).result = .ok posture ∧
      PreparedInFull system (issued (w s .issuedCredentials).2) posture) ↔
        ¬ EndsInReplacement secret := by
  constructor
  · intro hpassed hx
    obtain ⟨posture, hposture, hfull⟩ := hpassed
    obtain ⟨t, hends⟩ := ends_prepare_of_accepted h hauth hsecret hx
    cases hends.result.symm.trans hposture
    have hcheck : AuthorizationCheck.failedNegativeProbe = .passed := hfull.check
    exact absurd hcheck (by decide)
  · intro hx
    obtain ⟨posture, t, hends, hfull⟩ := ends_prepare_of_rejected h hauth hsecret hx
    exact ⟨posture, hends.result, hfull⟩

theorem provision_passes_iff (h : HonestBackend v granted) {capabilities : Finset Capability}
    (hclaims : capabilities ∩ authorizationCapabilities ≠ ∅) (track : Track τ) {s : ρ}
    (hsecret : (granted (v s .provision).2).get? (lit "operator") = some secret) :
    (∃ track', ((provision capabilities track).run v s).result = .ok track' ∧
      track'.check = .passed) ↔ ¬ EndsInReplacement secret := by
  obtain ⟨ns, track', t, hends, hcheck⟩ := ends_provision h hclaims track hsecret
  constructor
  · intro hpassed
    obtain ⟨track'', htrack, hpass⟩ := hpassed
    cases hends.result.symm.trans htrack
    exact hcheck.mp hpass
  · intro hx
    exact ⟨track', hends.result, hcheck.mpr hx⟩

/-- **The probe and the honest.** What it presents differs from the secret, `prepare` keeps the
    claims of an honest system, and `_provision` passes an honest backend, each exactly if the
    operator's secret does not end in the replacement. -/
theorem probe_classifies_iff (hsystem : HonestSystem w issued)
    (system : AuthenticatedMemorySystem) (hauth : system.isAuthenticated = true) (s : σ)
    (hissued : (issued (w s .issuedCredentials).2).get? (lit "operator") = some secret)
    (hbackend : HonestBackend v granted) {capabilities : Finset Capability}
    (hclaims : capabilities ∩ authorizationCapabilities ≠ ∅) (track : Track τ) (t : ρ)
    (hgranted : (granted (v t .provision).2).get? (lit "operator") = some secret) :
    ((∃ posture, ((prepare system).run w s).result = .ok posture ∧
        PreparedInFull system (issued (w s .issuedCredentials).2) posture) ↔
      ¬ EndsInReplacement secret) ∧
    ((∃ track', ((provision capabilities track).run v t).result = .ok track' ∧
        track'.check = .passed) ↔
      ¬ EndsInReplacement secret) ∧
    (probeSecret secret ≠ secret ↔ ¬ EndsInReplacement secret) :=
  ⟨prepare_passes_iff hsystem hauth hissued, provision_passes_iff hbackend hclaims track hgranted,
    not_congr (probeSecret_eq_iff (hsystem.nonempty _ _ secret hissued))⟩

end Law

section

/-- Credentials for two of the principals. -/
def deskIssued (secret : Str) : Dict Str Str :=
  (Dict.empty.set (lit "operator") secret).set (lit "analyst") (lit "analyst-secret")

/-- A system with one table of credentials. -/
def desk (secret : Str) : World identity Unit := fun _ call =>
  match call with
  | .issuedCredentials => (.ok (deskIssued secret), ())
  | .authenticate name presented =>
      (.ok (if (deskIssued secret).get? name = some presented then some (lit "token:" ++ name)
        else none), ())

/-- A backend with the same table. -/
def backendDesk (secret : Str) : World (harness Unit) Unit := fun _ call =>
  match call with
  | .provision => (.ok (deskIssued secret), ())
  | .openSession credential =>
      (.ok (if (deskIssued secret).get? credential.name = some credential.secret then some ()
        else none), ())
  | call => ((down [] [] call).1, ())

theorem nonempty_deskIssued {secret : Str} (hne : secret ≠ []) {name presented : Str}
    (h : (deskIssued secret).get? name = some presented) : presented ≠ [] := by
  unfold deskIssued at h
  rw [Dict.get?_set, Dict.get?_set] at h
  split at h
  · cases h
    exact List.cons_ne_nil _ _
  · split at h
    · cases h
      exact hne
    · cases h

theorem honest_desk {secret : Str} (hne : secret ≠ []) :
    HonestSystem (desk secret) fun _ => deskIssued secret where
  issues _ := rfl
  operator _ := ⟨secret, rfl⟩
  nonempty _ _ _ h := nonempty_deskIssued hne h
  accepts _ _ _ := ⟨_, rfl, Option.isSome_ite⟩
  keeps _ _ _ := rfl

theorem honest_backendDesk {secret : Str} (hne : secret ≠ []) :
    HonestBackend (backendDesk secret) fun _ => deskIssued secret where
  issues _ := rfl
  operator _ := ⟨secret, rfl⟩
  nonempty _ _ _ h := nonempty_deskIssued hne h
  accepts _ _ _ := ⟨_, rfl, Option.isSome_ite⟩
  keeps _ _ _ := rfl

/-- An honest system with claims. -/
def claiming : AuthenticatedMemorySystem where
  capabilities := {.retrieval, .isolation}
  authorizationMechanism := "token-registry"

/-- A secret of hexadecimal digits does not end in the replacement, so the probe tells it from a
    corrupted one, in both drivers. -/
theorem probe_classifies_hex :
    (∃ posture, ((prepare claiming).run (desk (lit "9f3a")) ()).result = .ok posture ∧
      PreparedInFull claiming (deskIssued (lit "9f3a")) posture) ∧
    (∃ track', ((provision {.isolation} {}).run (backendDesk (lit "9f3a")) ()).result =
        .ok track' ∧ track'.check = .passed) ∧
    probeSecret (lit "9f3a") ≠ lit "9f3a" := by
  have hne : lit "9f3a" ≠ [] := List.cons_ne_nil _ _
  have hx : ¬ EndsInReplacement (lit "9f3a") := by
    unfold EndsInReplacement
    decide
  have hclaims : {.isolation} ∩ authorizationCapabilities ≠ ∅ := by decide
  have hlaw := probe_classifies_iff (honest_desk hne) claiming rfl () rfl (honest_backendDesk hne)
    hclaims {} () rfl
  exact ⟨hlaw.1.mpr hx, hlaw.2.1.mpr hx, hlaw.2.2.mpr hx⟩

/-- An honest system whose operator got a secret that ends in the replacement. -/
theorem replacement_accepted :
    HonestSystem (desk (lit "unix")) (fun _ => deskIssued (lit "unix")) ∧
    HonestBackend (backendDesk (lit "unix")) (fun _ => deskIssued (lit "unix")) ∧
    probeSecret (lit "unix") = lit "unix" ∧
    ((prepare claiming).run (desk (lit "unix")) ()).result =
      .ok (stripped claiming "token-registry" .failedNegativeProbe) ∧
    ∃ track', ((provision {.isolation} {}).run (backendDesk (lit "unix")) ()).result = .ok track' ∧
      track'.check = .failedNegativeProbe :=
  ⟨honest_desk (List.cons_ne_nil _ _), honest_backendDesk (List.cons_ne_nil _ _), rfl, rfl, _, rfl,
    rfl⟩

end

end AdversarialCognition
