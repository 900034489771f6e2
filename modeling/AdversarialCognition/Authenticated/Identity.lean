import AdversarialCognition.Backend.Core

/-!
# Authenticated identities

`adversarial_cognition/identity.py`: a registry of identities, each with the attributes the server
holds for it, and the check of a presented credential against the one derived from the did. How it
is derived is a parameter, `CredentialScheme`; `hmacScheme` is the one the benchmark uses.

`hmac.compare_digest` refuses two strings one of which has a character outside ASCII, by raising.
So a credential is compared, or rejected, or raises, and `authenticate` has the third outcome for
a registered did only.

## What the scheme promises

That every credential is in ASCII, and nothing else. Whoever presents the credential of a did is
that did, and how it came by it is outside of the model. That two dids have two credentials is
asked for where it is needed, which is in one conjunct of one result. `hmacScheme` is there so
that a run can be evaluated, and to show that the promise is kept by the scheme of the source.
-/

namespace AdversarialCognition

open Py Py.Str

/-- What an authenticated operation can raise. -/
inductive AuthExn
  /-- `compare_digest` on a string with a non-ASCII character -/
  | typeError
  /-- whatever the core raised -/
  | core (e : Exn)
  deriving DecidableEq

/-- `s.isascii()` -/
def isAscii (s : Str) : Bool := s.all fun c => c.val < 0x80

/-- `hmac.compare_digest(a, b)` of two `str`. -/
def compareDigest (a b : Str) : Except AuthExn Bool :=
  if isAscii a && isAscii b then .ok (a == b) else .error .typeError

/-- What the server holds for a did. The defaults are the source's. -/
structure IdentityRecord where
  did : Str
  tenant : Str := "agstack"
  space : Str := "coffee"
  purpose : Str := "market-research"
  clearance : ℤ := 1
  canMutate : Bool := true
  deriving DecidableEq

structure Session where
  record : IdentityRecord

/-- `_credential`: the credential of each did, in ASCII. -/
class CredentialScheme where
  credential : Str → Str
  isAscii_credential : ∀ did, isAscii (credential did) = true

open CredentialScheme

structure IdentityRegistry where
  records : Dict Str IdentityRecord

namespace IdentityRegistry

def new : IdentityRegistry := ⟨Dict.empty⟩

variable [CredentialScheme]

/-- `register`: the new credential, and the registry with the record in it. -/
def register (r : IdentityRegistry) (record : IdentityRecord) : Str × IdentityRegistry :=
  (credential record.did, { r with records := r.records.set record.did record })

/-- `authenticate`. A did that is not registered is rejected before anything is compared, and a
    credential that is not ASCII raises only behind this. -/
def authenticate (r : IdentityRegistry) (did presented : Str) : Except AuthExn (Option Session) :=
  match r.records.get? did with
  | none => .ok none
  | some record =>
    match compareDigest (credential did) presented with
    | .error e => .error e
    | .ok false => .ok none
    | .ok true => .ok (some ⟨record⟩)

/-- `presented` is the credential of `did`, which is registered with `record`. -/
def Authenticates (r : IdentityRegistry) (did presented : Str) (record : IdentityRecord) : Prop :=
  r.records.get? did = some record ∧ presented = credential did

instance (r : IdentityRegistry) (did presented : Str) (record : IdentityRecord) :
    Decidable (r.Authenticates did presented record) :=
  inferInstanceAs (Decidable (_ ∧ _))

theorem authenticate_of_authenticates {r : IdentityRegistry} {did presented : Str}
    {record : IdentityRecord} (h : r.Authenticates did presented record) :
    r.authenticate did presented = .ok (some ⟨record⟩) := by
  obtain ⟨hrecord, rfl⟩ := h
  simp [authenticate, hrecord, compareDigest, isAscii_credential]

/-- What is not authenticated is rejected, or raises if it is not ASCII. -/
theorem authenticate_of_not {r : IdentityRegistry} {did presented : Str}
    (h : ∀ record, ¬ r.Authenticates did presented record) :
    r.authenticate did presented = .ok none ∨
      (isAscii presented = false ∧ r.authenticate did presented = .error .typeError) := by
  unfold authenticate
  cases hrecord : r.records.get? did with
  | none => exact Or.inl rfl
  | some record =>
    have hne : (credential did == presented) = false :=
      beq_eq_false_iff_ne.mpr fun heq => h record ⟨hrecord, heq.symm⟩
    cases hascii : isAscii presented with
    | true => simp [compareDigest, isAscii_credential, hascii, hne]
    | false => simp [compareDigest, hascii]

end IdentityRegistry

/-!
## The benchmark's scheme

A credential is the HMAC of the did under one key. Nothing about HMAC is used but that its digest,
in hexadecimal, is a text in ASCII: whether a credential of one did might be that of another is a
question to SHA-256.
-/

def hexdigest (bytes : List UInt8) : Str := bytes.flatMap fun b => hex 2 b.toNat

/-- A digest in hexadecimal is in ASCII, whatever the bytes. -/
theorem isAscii_hexdigest (bytes : List UInt8) : isAscii (hexdigest bytes) = true := by
  rw [isAscii, List.all_eq_true]
  intro c hc
  obtain ⟨b, -, hb⟩ := List.mem_flatMap.mp hc
  obtain ⟨i, -, rfl⟩ := List.mem_map.mp hb
  apply decide_eq_true
  unfold hexDigit
  split <;> simp only [Fin.ofNat] <;> omega

/-- `BENCHMARK_IDENTITY_KEY` -/
def benchmarkIdentityKey : List UInt8 :=
  (lit "marciana-adversarial-v2-identity").map fun c => UInt8.ofNat c.val

section Hmac

variable [Runtime]

/-- `hmac.new(key, message, sha256).digest()` -/
def hmacSha256 (key message : List UInt8) : List UInt8 :=
  let key := if key.length > 64 then Runtime.sha256 key else key
  let block := key ++ List.replicate (64 - key.length) 0
  Runtime.sha256 (block.map (· ^^^ 0x5c) ++ Runtime.sha256 (block.map (· ^^^ 0x36) ++ message))

/-- The HMAC of the did under the benchmark's key. A did with a surrogate has none: Python
    raises when it is registered, so no registry asks for it. -/
@[reducible] def hmacScheme : CredentialScheme where
  credential did :=
    match did.encode with
    | .ok bytes => hexdigest (hmacSha256 benchmarkIdentityKey bytes)
    | .error _ => []
  isAscii_credential did := by
    cases did.encode with
    | ok bytes => exact isAscii_hexdigest _
    | error e => rfl

end Hmac

end AdversarialCognition
