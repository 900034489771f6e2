import AdversarialCognition.Authenticated.Identity
import AdversarialCognition.Backend.Seed
import AdversarialCognition.Lib.Sha256

/-!
# The authenticated backend

`adversarial_cognition/backend_v2.py`: the policy core behind a registry of identities. Every
operation authenticates a did and a credential, and then runs the core's operation of the same
name as the actor the registry has on record for that did.

The contract is a simulation. `Request.ops` says what a request asks of the core: one call, if it
authenticates, and otherwise nothing. `refines_v1` says that a run of the authenticated backend is
the core's run on what its inputs ask of it, reply by reply, that a request which does not
authenticate leaves no trace, and that nothing a caller supplies decides the actor except which
registered did it has the credential of.

## What this buys

Every law of the core, whether it holds or fails, is carried over. A run of the authenticated
backend has a run of the core behind it, and what the core promises of that run it promises here
of the requests that authenticate. Nothing has to be proved twice, and no defect of the core is
mended by the check in front of it: a caller that is authenticated meets the operations as they
are.

The seeding is an input of the machine like a restart, since the source lets it be called at any
time. It asks the core for its four remembers.
-/

namespace AdversarialCognition

open Py Py.Str CredentialScheme

/-- A caller's request, with the did and the credential it presents. -/
inductive Request
  | remember (memory : Memory) (did presented nonce : Str)
  | recall (query did presented : Str) (asOf : Date) (nonce : Str)
  | improve (memoryId : Str) (replacement : Memory)
      (did presented nonce expectedSourceDigest idempotencyKey : Str)
  | forget (memoryId did presented nonce : Str)

namespace Request

def did : Request → Str
  | .remember _ did _ _ => did
  | .recall _ did _ _ _ => did
  | .improve _ _ did _ _ _ _ => did
  | .forget _ did _ _ => did

def presented : Request → Str
  | .remember _ _ presented _ => presented
  | .recall _ _ presented _ _ => presented
  | .improve _ _ _ presented _ _ _ => presented
  | .forget _ _ presented _ => presented

/-- The call of the core, once it is known who calls. -/
def call (r : Request) (actor : Actor) : Call :=
  match r with
  | .remember memory _ _ nonce => .remember memory actor nonce
  | .recall query _ _ asOf nonce => .recall query actor asOf nonce
  | .improve memoryId replacement _ _ nonce expectedSourceDigest idempotencyKey =>
      .improve ⟨memoryId, replacement, actor, nonce, expectedSourceDigest, idempotencyKey⟩
  | .forget memoryId _ _ nonce => .forget memoryId actor nonce

end Request

/-- `PRINCIPALS` -/
def principals : List IdentityRecord := [
  { did := "did:key:operator", clearance := 3 },
  { did := "did:key:analyst", clearance := 1 },
  { did := "did:key:outsider", tenant := "rival" },
  { did := "did:key:advertiser", purpose := "advertising" }]

/-- `DENIED` -/
def authenticationDenied : Decision := denied "authentication-denied"

abbrev AuthReply := Except AuthExn Decision

/-- What the core came back with, as a reply of the authenticated backend. -/
def ofCore : Reply → AuthReply
  | .ok d => .ok d
  | .error e => .error (.core e)

structure AuthenticatedBackend where
  core : AdversarialBackend
  identities : IdentityRegistry

section Model

variable [Runtime] [CredentialScheme]

namespace AuthenticatedBackend

def new : AuthenticatedBackend where
  core := AdversarialBackend.new
  identities := principals.foldl (fun r record => (r.register record).2) IdentityRegistry.new

def seed (b : AuthenticatedBackend) : AuthenticatedBackend := { b with core := b.core.seed }

def restart (b : AuthenticatedBackend) : AuthenticatedBackend :=
  { b with core := b.core.restart }

def authenticate (b : AuthenticatedBackend) (did presented : Str) :
    Except AuthExn (Option Session) :=
  b.identities.authenticate did presented

/-- `_actor`: everything about the actor comes from the record, the did too. -/
def actor (session : Session) : Actor where
  did := session.record.did
  tenant := session.record.tenant
  space := session.record.space
  purpose := session.record.purpose
  clearance := session.record.clearance
  canMutate := session.record.canMutate

/-- What the four operations share: authenticate, deny, or run the core's operation. Nothing is
    written before the session is there. -/
def withSession (b : AuthenticatedBackend) (did presented : Str)
    (operation : Actor → Reply × AdversarialBackend) : AuthReply × AuthenticatedBackend :=
  match b.authenticate did presented with
  | .error e => (.error e, b)
  | .ok none => (.ok authenticationDenied, b)
  | .ok (some session) =>
    let (reply, core) := operation (actor session)
    (ofCore reply, { b with core := core })

def remember (b : AuthenticatedBackend) (memory : Memory) (did presented nonce : Str) :
    AuthReply × AuthenticatedBackend :=
  b.withSession did presented fun actor => b.core.remember memory actor nonce

def «recall» (b : AuthenticatedBackend) (query did presented : Str) (asOf : Date) (nonce : Str) :
    AuthReply × AuthenticatedBackend :=
  b.withSession did presented fun actor => b.core.recall query actor asOf nonce

def improve (b : AuthenticatedBackend) (memoryId : Str) (replacement : Memory)
    (did presented nonce expectedSourceDigest idempotencyKey : Str) :
    AuthReply × AuthenticatedBackend :=
  b.withSession did presented fun actor =>
    b.core.improve memoryId replacement actor nonce expectedSourceDigest idempotencyKey

def forget (b : AuthenticatedBackend) (memoryId did presented nonce : Str) :
    AuthReply × AuthenticatedBackend :=
  b.withSession did presented fun actor => b.core.forget memoryId actor nonce

def perform (b : AuthenticatedBackend) : Request → AuthReply × AuthenticatedBackend
  | .remember memory did presented nonce => b.remember memory did presented nonce
  | .recall query did presented asOf nonce => b.recall query did presented asOf nonce
  | .improve memoryId replacement did presented nonce expectedSourceDigest idempotencyKey =>
      b.improve memoryId replacement did presented nonce expectedSourceDigest idempotencyKey
  | .forget memoryId did presented nonce => b.forget memoryId did presented nonce

end AuthenticatedBackend

inductive Input
  | request (r : Request)
  | seed
  | restart

/-- The authenticated backend as a machine. -/
def authenticated : Machine AuthenticatedBackend Input (Option AuthReply) where
  init := AuthenticatedBackend.new
  step b
    | .request r => (some (b.perform r).1, (b.perform r).2)
    | .seed => (none, b.seed)
    | .restart => (none, b.restart)

@[simp] theorem authenticated_next_request (b : AuthenticatedBackend) (r : Request) :
    authenticated.next b (.request r) = (b.perform r).2 := rfl

@[simp] theorem authenticated_next_seed (b : AuthenticatedBackend) :
    authenticated.next b .seed = { b with core := backend.run b.core seedOps } := by
  rw [← seed_eq_run]
  rfl

@[simp] theorem authenticated_next_restart (b : AuthenticatedBackend) :
    authenticated.next b .restart = b := rfl

/-!
## One request

A request is authenticated by the record under its did, and by a credential that belongs to that
did. If it is, it is one call of the core by that record; if not, nothing is done.
-/

/-- The registry every run starts with, and keeps. -/
def registered : IdentityRegistry := AuthenticatedBackend.new.identities

/-- `record` is on record for the did of the request, and the credential is that did's. -/
def Request.By (r : Request) (record : IdentityRecord) : Prop :=
  registered.Authenticates r.did r.presented record

instance (r : Request) (record : IdentityRecord) : Decidable (r.By record) :=
  inferInstanceAs (Decidable (registered.Authenticates _ _ _))

theorem perform_eq (b : AuthenticatedBackend) (r : Request) :
    b.perform r = b.withSession r.did r.presented fun actor => b.core.exec (r.call actor) := by
  cases r with
  | remember => rfl
  | «recall» => rfl
  | improve => rfl
  | forget => rfl

theorem perform_of_by {b : AuthenticatedBackend} (hb : b.identities = registered) {r : Request}
    {record : IdentityRecord} (h : r.By record) :
    b.perform r = (ofCore (b.core.exec (r.call (AuthenticatedBackend.actor ⟨record⟩))).1,
      { b with core := (b.core.exec (r.call (AuthenticatedBackend.actor ⟨record⟩))).2 }) := by
  rw [perform_eq, AuthenticatedBackend.withSession, AuthenticatedBackend.authenticate, hb,
    IdentityRegistry.authenticate_of_authenticates h]

/-- A request nobody is authenticated by changes nothing, and is denied unless its
    credential is not even ASCII. -/
theorem perform_of_not_by {b : AuthenticatedBackend} (hb : b.identities = registered)
    {r : Request} (h : ∀ record, ¬ r.By record) :
    (b.perform r).2 = b ∧
      (isAscii r.presented = true → (b.perform r).1 = .ok authenticationDenied) := by
  rw [perform_eq, AuthenticatedBackend.withSession, AuthenticatedBackend.authenticate, hb]
  cases IdentityRegistry.authenticate_of_not h with
  | inl hnone =>
    rw [hnone]
    exact ⟨rfl, fun _ => rfl⟩
  | inr herror =>
    rw [herror.2]
    refine ⟨rfl, fun hascii => ?_⟩
    rw [herror.1] at hascii
    exact absurd hascii Bool.false_ne_true

/-!
## Runs

The calls of the core that a run of the authenticated backend comes to are those of the requests
that authenticate, in order. The registry is never written to, so which ones these are is known
before the run, and the core of the state after the run is the core after those calls.
-/

/-- The calls of the core a request asks for: one if it authenticates, else none. -/
def Request.ops (r : Request) : List Op :=
  match registered.records.get? r.did with
  | some record =>
    if r.presented = credential r.did then [.call (r.call (AuthenticatedBackend.actor ⟨record⟩))]
    else []
  | none => []

def Input.ops : Input → List Op
  | .request r => r.ops
  | .seed => seedOps
  | .restart => [.restart]

omit [Runtime] in
theorem Request.ops_of_by {r : Request} {record : IdentityRecord} (h : r.By record) :
    r.ops = [.call (r.call (AuthenticatedBackend.actor ⟨record⟩))] := by
  obtain ⟨hrecord, hpresented⟩ := h
  rw [ops, hrecord]
  exact if_pos hpresented

omit [Runtime] in
theorem Request.ops_of_not_by {r : Request} (h : ∀ record, ¬ r.By record) : r.ops = [] := by
  rw [ops]
  cases hrecord : registered.records.get? r.did with
  | none => rfl
  | some record => exact if_neg fun hpresented => h record ⟨hrecord, hpresented⟩

/-- **The authenticated backend is simulated by the core**, and never touches its
    registry. -/
theorem simulation : Machine.Simulation authenticated backend
    (fun b => b.identities = registered) AuthenticatedBackend.core Input.ops where
  init := ⟨rfl, rfl⟩
  inv b i hb := by
    cases i with
    | seed =>
      rw [authenticated_next_seed]
      exact hb
    | restart =>
      rw [authenticated_next_restart]
      exact hb
    | request r =>
      rw [authenticated_next_request]
      -- a request that no record stands behind leaves the backend alone
      by_cases hby : ∃ record, r.By record
      · obtain ⟨record, hby⟩ := hby
        rw [perform_of_by hb hby]
        exact hb
      · rw [(perform_of_not_by hb (not_exists.mp hby)).1]
        exact hb
  step b i hb := by
    cases i with
    | seed => rw [authenticated_next_seed, Input.ops]
    | restart => rw [authenticated_next_restart, Input.ops, Machine.run_cons, Machine.run_nil,
        backend_next_restart]
    | request r =>
      rw [authenticated_next_request, Input.ops]
      by_cases hby : ∃ record, r.By record
      · obtain ⟨record, hby⟩ := hby
        rw [perform_of_by hb hby, Request.ops_of_by hby]
        rfl
      · rw [(perform_of_not_by hb (not_exists.mp hby)).1,
          Request.ops_of_not_by (not_exists.mp hby)]
        rfl

omit [Runtime] in
theorem record_of_registered {did : Str} {record : IdentityRecord}
    (h : registered.records.get? did = some record) : record.did = did ∧ record ∈ principals := by
  have hmem : (did, record) ∈ principals.map fun p => (p.did, p) := Dict.mem_items_iff.mpr h
  obtain ⟨p, hp, heq⟩ := List.mem_map.mp hmem
  obtain ⟨rfl, rfl⟩ := Prod.mk.inj heq
  exact ⟨rfl, hp⟩

/-- What a run of the authenticated backend is, in terms of the core's. -/
structure RefinesV1 (inputs : List Input) : Prop where
  /-- The core's state, tables and all, is that of the core's own run. -/
  core : (authenticated.after inputs).core = backend.after (inputs.flatMap Input.ops)
  /-- Nothing changes who is registered. -/
  identities : (authenticated.after inputs).identities = registered
  /-- A request that authenticates gets the core's reply to its call. -/
  granted : ∀ pre r post record, inputs = pre ++ .request r :: post → r.By record →
    ((authenticated.after pre).perform r).1 =
      ofCore ((backend.after (pre.flatMap Input.ops)).exec
        (r.call (AuthenticatedBackend.actor ⟨record⟩))).1
  /-- Any other is denied and leaves the whole backend as it was. -/
  rejected : ∀ pre r post, inputs = pre ++ .request r :: post → (∀ record, ¬ r.By record) →
    isAscii r.presented = true →
    (authenticated.after pre).perform r = (.ok authenticationDenied, authenticated.after pre)
  /-- The actor is the one on record for the did whose credential was presented. -/
  attributes : ∀ (r : Request) record, r.By record →
    AuthenticatedBackend.actor ⟨record⟩ =
        { did := r.did, tenant := record.tenant, space := record.space, purpose := record.purpose,
          clearance := record.clearance, canMutate := record.canMutate } ∧
      record ∈ principals ∧ (∀ record', r.By record' → record' = record) ∧
      (Function.Injective (credential : Str → Str) →
        ∀ did, r.presented = credential did → did = r.did)

/-- **The authenticated backend is the core, run on what authenticates.** A request that a
    registered record stands behind is a call of the core under the record's principal, and any
    other leaves the backend as it was and is denied; the run is over every input, restarts and
    seeds among them. -/
theorem refines_v1 (inputs : List Input) : RefinesV1 inputs where
  core := (simulation.after inputs).2
  identities := (simulation.after inputs).1
  granted := by
    intro pre r post record _ hby
    rw [perform_of_by (simulation.after pre).1 hby, (simulation.after pre).2]
  rejected := by
    intro pre r post _ hby hascii
    obtain ⟨hstate, hreply⟩ := perform_of_not_by (simulation.after pre).1 hby
    exact Prod.ext (hreply hascii) hstate
  attributes := by
    intro r record hby
    obtain ⟨hrecord, hpresented⟩ := hby
    obtain ⟨hdid, hmem⟩ := record_of_registered hrecord
    refine ⟨by rw [AuthenticatedBackend.actor, hdid], hmem, ?_, ?_⟩
    · intro record' hby'
      exact (Option.some.inj (hrecord.symm.trans hby'.1)).symm
    · intro hinj did hdid'
      exact hinj (hdid'.symm.trans hpresented)

end Model

end AdversarialCognition
