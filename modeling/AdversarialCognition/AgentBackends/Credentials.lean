import AdversarialCognition.AgentBackends.Marciana

/-!
# What becomes of a presented credential

A registry is asked in three places: by `authenticate`, by the four operations of the
authenticated backend, and by the harness when it opens a session. `Decides` is the law for one
did and one text presented under it: the record's session if the text is the credential of a
registered did, and otherwise no session, a denial, no session.

A text with a character outside ASCII is the credential of nobody, but it is not denied:
`compare_digest` raises on it. So the law is kept where the did is not registered, which is
settled before anything is compared, or the text is ASCII, and nowhere else.

## What is assumed of credentials

How a credential is made of a did is a `CredentialScheme`, and the law is over all of them. All
the scheme is used for is that a credential is ASCII, as a hexadecimal digest is. The failing
input is run with the HMAC of the source.

The law is stated over the registry and not over runs. No operation changes the registry, so after
any run it is the one a backend was made with.
-/

namespace AdversarialCognition

open Py Py.Str CredentialScheme

section Model

variable [CredentialScheme]

/-- The comparison raises, once there is something to compare with. -/
theorem IdentityRegistry.authenticate_of_not_isAscii {r : IdentityRegistry} {did presented : Str}
    {record : IdentityRecord} (hrecord : r.records.get? did = some record)
    (hascii : isAscii presented = false) :
    r.authenticate did presented = .error .typeError := by
  rw [authenticate, hrecord]
  simp only [compareDigest, hascii, Bool.and_false, Bool.false_eq_true, if_false]

theorem IdentityRegistry.isAscii_of_authenticates {r : IdentityRegistry} {did presented : Str}
    {record : IdentityRecord} (h : r.Authenticates did presented record) :
    isAscii presented = true := by
  rw [h.2]
  exact isAscii_credential did

/-- Whoever is not authenticated is turned away, where nothing raises. -/
theorem IdentityRegistry.authenticate_eq_none {r : IdentityRegistry} {did presented : Str}
    (hquiet : r.records.get? did = none ∨ isAscii presented = true)
    (h : ∀ record, ¬ r.Authenticates did presented record) :
    r.authenticate did presented = .ok none := by
  cases authenticate_of_not h with
  | inl hnone => exact hnone
  | inr hraise =>
    cases hquiet with
    | inl hrecord => rw [authenticate, hrecord]
    | inr hascii => simp [hraise.1] at hascii

variable [Runtime]

/-- **The law**, for `presented` under `did` at a registry. -/
structure Decides (r : IdentityRegistry) (did presented : Str) : Prop where
  granted : ∀ record, r.Authenticates did presented record →
    r.authenticate did presented = .ok (some ⟨record⟩)
  rejected : (∀ record, ¬ r.Authenticates did presented record) →
    r.authenticate did presented = .ok none
  /-- Each of the four operations, at any state behind the registry. -/
  denied : (∀ record, ¬ r.Authenticates did presented record) →
    ∀ (b : AuthenticatedBackend) (q : Request), b.identities = r → q.did = did →
      q.presented = presented → b.perform q = (.ok authenticationDenied, b)
  opened : ∀ record, r.Authenticates did presented record →
    ∀ (m : MarcianaAgentBackend) (name : Str), m.backend.identities = r →
      MarcianaAgentBackend.agentDid name = did →
      m.openSession ⟨name, presented⟩ = .ok (some (did, presented))
  unopened : (∀ record, ¬ r.Authenticates did presented record) →
    ∀ (m : MarcianaAgentBackend) (name : Str), m.backend.identities = r →
      MarcianaAgentBackend.agentDid name = did → m.openSession ⟨name, presented⟩ = .ok none

/-- Everything in the law follows from what `authenticate` does with those it turns away. -/
theorem Decides.of_rejected {r : IdentityRegistry} {did presented : Str}
    (h : (∀ record, ¬ r.Authenticates did presented record) →
      r.authenticate did presented = .ok none) : Decides r did presented where
  granted _ := IdentityRegistry.authenticate_of_authenticates
  rejected := h
  denied := by
    rintro hnot b q rfl rfl rfl
    rw [perform_eq, AuthenticatedBackend.withSession, AuthenticatedBackend.authenticate, h hnot]
  opened := by
    rintro record hauth m name rfl rfl
    rw [MarcianaAgentBackend.openSession, AuthenticatedBackend.authenticate,
      IdentityRegistry.authenticate_of_authenticates hauth]
  unopened := by
    rintro hnot m name rfl rfl
    rw [MarcianaAgentBackend.openSession, AuthenticatedBackend.authenticate, h hnot]

/-- A registered did under which something outside ASCII is presented is neither granted
    nor rejected. -/
theorem not_decides_of_registered {r : IdentityRegistry} {did presented : Str}
    {record : IdentityRecord} (hrecord : r.records.get? did = some record)
    (hascii : isAscii presented = false) : ¬ Decides r did presented := by
  intro h
  have hnot : ∀ record, ¬ r.Authenticates did presented record := by
    intro record hauth
    rw [IdentityRegistry.isAscii_of_authenticates hauth] at hascii
    exact absurd hascii (by decide)
  have hnone := h.rejected hnot
  rw [IdentityRegistry.authenticate_of_not_isAscii hrecord hascii] at hnone
  exact absurd hnone (by simp)

/-- **A credential is decided exactly where it is ASCII or its did is unknown.** The comparison of
    two strings in constant time raises for a character beyond ASCII; an unknown did is refused
    before it. -/
theorem decides_iff (r : IdentityRegistry) (did presented : Str) :
    Decides r did presented ↔ r.records.get? did = none ∨ isAscii presented = true := by
  constructor
  · intro h
    cases hrecord : r.records.get? did with
    | none => exact Or.inl rfl
    | some record =>
      refine Or.inr ?_
      by_contra hascii
      exact not_decides_of_registered hrecord (Bool.eq_false_iff.mpr hascii) h
  · intro hquiet
    exact Decides.of_rejected (IdentityRegistry.authenticate_eq_none hquiet)

end Model

section

attribute [local instance] cpython hmacScheme

/-- The operator of the benchmark, with an accented letter for a credential. -/
theorem accented_undecided : ¬ Decides registered (lit "did:key:operator") [0xE9] := by
  have hrecord : registered.records.get? (lit "did:key:operator") =
      some { did := lit "did:key:operator", clearance := 3 } := by decide
  exact not_decides_of_registered hrecord (by decide)

end

end AdversarialCognition
