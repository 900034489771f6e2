import AdversarialCognition.Authenticated.Identity
import AdversarialCognition.Book.Digest
import AdversarialCognition.Lib.Journal
import Mathlib.Data.Finset.Sort

/-!
# The reference guard

`docs/book/code/capability/capability_adversarial/backend.py`: the authority boundary that the
capability suite is scored against. A capability carries a seal over the rest of it, under the
engine's key; `verify` asks for the seal, the id, the epoch and the lease, and every operation
asks `verify` first.

## What is modelled

The guard is its policy, the revoked ids, the epoch, the clock, the audit and the number of ids
that were given out. Each operation returns what it replies and the guard it leaves, and the audit
is extended in the order of the source. An operation that raises leaves what it did before that.

* `json.dumps` refuses an integer of more than 4300 digits, so a capability of such an expiry
  cannot be sealed. To verify it raises, and to mint it raises after the id was counted.
* `LEVELS.index(label)` raises for a label that is none of the three. `_read_ceiling` looks a
  level up only if it is one, but `reveal` does so in any case.
* A request off the wire is the fields of their annotated types, and the names of whatever else is
  in the payload.
* An argument that `attenuate` may be called without is an option.

## What is not

Values in a request of other types than the annotated ones, and what `int(...)` makes of them.
What the theorems ask of HMAC, that it does not collide on two texts, they ask where they need it.
-/

namespace AdversarialCognition

namespace CapabilityAdversarial

open Py Py.Str Py.Json Book

/-- `DOMAIN` -/
def domain : Str := lit "querygraph.capability-adversarial.v1"

/-- `_ENGINE_KEY` -/
def engineKey : List UInt8 :=
  (lit "capability-adversarial/reference-engine-key/v1").map fun c => UInt8.ofNat c.val

/-- `LEVELS` -/
def levels : List Str := [lit "public", lit "internal", lit "sensitive"]

/-- `LEVELS.index(label)`, with `none` where it raises. A level is read by its place in the list,
    so a higher one is a greater number. -/
def level? (label : Str) : Option ℕ := levels.idxOf? label

/-- The level that a grant lets read, if it is one to read at a level. -/
def readLevel? (grant : Str) : Option ℕ :=
  if (lit "read:").isPrefixOf grant then level? (grant.drop 5) else none

/-- The body of `_read_ceiling`'s loop: a grant that is none to read leaves the best as it is. -/
def raised (best : ℤ) (g : Str) : ℤ :=
  match readLevel? g with
  | some level => max best level
  | none => best

/-- `_read_ceiling`: the highest level that the grants let read, or -1 if they let read none. -/
def readCeiling (grants : List Str) : ℤ := grants.foldl raised (-1)

/-- `_grant_implied`: a grant to read is implied by one to read higher, and any other only by
    itself. -/
def grantImplied (parent : List Str) (g : Str) : Bool :=
  match readLevel? g with
  | some level => decide ((level : ℤ) ≤ readCeiling parent)
  | none => decide (g ∈ parent)

/-- `sorted` of a set. -/
def sorted {α : Type} [LinearOrder α] (items : Finset α) : List α := items.sort (· ≤ ·)

@[simp] theorem mem_sorted {α : Type} [LinearOrder α] {items : Finset α} {a : α} :
    a ∈ sorted items ↔ a ∈ items :=
  Finset.mem_sort _

/-- `Capability`, of the fields that the source has. The grants are sorted where the guard makes
    them. -/
structure Capability where
  capId : Str
  subject : Str
  grants : List Str
  resource : Str
  operation : Str
  expiry : ℤ
  epoch : ℤ
  «seal» : Str := []
  deriving DecidableEq

/-- `("cap",) + _body()`: everything but the seal. -/
def Capability.parts (cap : Capability) : List Json :=
  [str (lit "cap"), str cap.capId, str cap.subject, list (cap.grants.map str), str cap.resource,
    str cap.operation, int cap.expiry, int cap.epoch]

/-- What the seal is over. -/
def Capability.text (cap : Capability) : Str :=
  domain ++ CodePoint.ofChar (Char.ofNat 0) :: canonical (list cap.parts)

/-- `SecureValue`: a text, the level it is of, and the resource it belongs to. -/
structure SecureValue where
  label : Str
  cleartext : Str
  resource : Str
  deriving DecidableEq

/-- `REDACTED` -/
def redacted : Str := lit "<redacted>"

/-- `Outcome`. What is revealed is `none` where the source has `None`, and it is the redacted text
    of a reveal that is refused. -/
structure Outcome where
  ok : Bool
  error : Str := []
  capability : Option Capability := none
  revealed : Option Str := none
  auditPresent : Bool := false
  deriving DecidableEq

/-- `Outcome(False, error, audit_present=True)` -/
def denied (error : String) : Outcome := { ok := false, error := lit error, auditPresent := true }

/-- An authorization request: its fields, and the names of those outside `REQUEST_FIELDS`. -/
structure Payload where
  subject : Option Str
  grants : Option (List Str)
  resource : Option Str
  operation : Option Str
  lease : Option ℤ
  extra : Finset Str

/-- The state of `Guard`: `n` is `_n`, the number of ids that were given out. -/
structure Guard where
  policy : Dict Str (Dict Str (Finset Str))
  revoked : Finset Str
  minEpoch : ℤ
  now : ℤ
  audit : List Str
  n : ℕ

/-- The guard before anything happened to it. -/
def Guard.new : Guard where
  policy := Dict.empty
  revoked := ∅
  minEpoch := 0
  now := 0
  audit := []
  n := 0

/-- `f"cap-{n:04d}"`: at least four digits, and more where the number has more. -/
def capId (n : ℕ) : Str :=
  lit "cap-" ++ List.replicate (4 - (ofNat n).length) (CodePoint.ofChar '0') ++ ofNat n

/-- The arguments of the digest of an audit event. -/
def auditParts (kind : String) (fields : List (String × Json)) : List Json :=
  [str (lit "audit"), str (lit kind), obj (fields.map fun field => (lit field.1, field.2))]

section Guard

variable [Runtime]

/-- `"hmac:" + hmac.new(key, text.encode(), hashlib.sha256).hexdigest()` of a text that encodes. -/
def mac (key : List UInt8) (text : Str) : Str :=
  match text.encode with
  | .ok bytes => lit "hmac:" ++ hexdigest (hmacSha256 key bytes)
  | .error _ => []

/-- `sealed`: the capability with a seal over the rest of it. The text that is sealed is ASCII,
    but its integers are printed by `str`. -/
def Capability.sealed (cap : Capability) (key : List UInt8) : Except Fault Capability :=
  if printsInts (list cap.parts) then .ok { cap with «seal» := mac key cap.text }
  else .error tooManyDigits

namespace Guard

omit [Runtime] in
/-- `grant_policy`: what the policy allowed before, for this subject and this resource, is
    replaced. -/
def grantPolicy (g : Guard) (subject resource : Str) (grants : Finset Str) : Guard :=
  { g with
    policy := g.policy.set subject
      (((g.policy.get? subject).getD Dict.empty).set resource grants) }

omit [Runtime] in
/-- `tick`. The clock can go back, as nothing keeps `n` from being negative. -/
def tick (g : Guard) (n : ℤ) : Guard := { g with now := g.now + n }

/-- `_audit`, of fields without integers. -/
def audited (g : Guard) (kind : String) (fields : List (String × Json)) : Guard :=
  { g with audit := g.audit ++ [hashed domain (auditParts kind fields)] }

/-- `verify`: the seal is computed anew and compared, then the id is looked up, then the epoch and
    the lease are checked. Only the first can raise. -/
def verify (g : Guard) : Option Capability → Except Fault Bool
  | none => .ok false
  | some cap => do
      let sealed ← cap.sealed engineKey
      return decide (sealed.«seal» = cap.«seal» ∧ cap.capId ∉ g.revoked ∧ ¬ cap.epoch < g.minEpoch ∧
        ¬ cap.expiry ≤ g.now)

omit [Runtime] in
/-- `policy.get(subject, {}).get(resource, frozenset())` -/
def allowed (g : Guard) (subject resource : Str) : Finset Str :=
  (((g.policy.get? subject).getD Dict.empty).get? resource).getD ∅

/-- `_next_id` and the capability that gets it, sealed. -/
def issue (g : Guard) (subject : Str) (grants : Finset Str) (resource operation : Str)
    (expiry epoch : ℤ) : Except Fault Capability × Guard :=
  let g := { g with n := g.n + 1 }
  if g.n < 10 ^ 4300 then
    (Capability.sealed {
      capId := capId g.n, subject := subject, grants := sorted grants, resource := resource,
      operation := operation, expiry := expiry, epoch := epoch } engineKey, g)
  else (.error tooManyDigits, g)

/-- The capability that was issued, and the event of it; or whatever was raised. -/
def granted (issued : Except Fault Capability × Guard) (kind : String)
    (fields : Capability → List (String × Json)) : Except Fault Outcome × Guard :=
  match issued with
  | (.error e, g) => (.error e, g)
  | (.ok cap, g) =>
      (.ok { ok := true, capability := some cap, auditPresent := true }, g.audited kind (fields cap))

/-- `mint`: what the policy does not allow is denied, and counts no id. -/
def mint (g : Guard) (subject : Str) (grants : Finset Str) (resource operation : Str) (lease : ℤ) :
    Except Fault Outcome × Guard :=
  if ¬ grants ⊆ g.allowed subject resource then
    (.ok (denied "policy-denied"),
      g.audited "mint-denied" [("subject", str subject), ("resource", str resource)])
  else
    granted (g.issue subject grants resource operation (g.now + lease) g.minEpoch) "mint" fun cap =>
      [("cap_id", str cap.capId), ("subject", str subject), ("resource", str resource)]

omit [Runtime] in
/-- `cap.expiry if lease is None else self.now + lease` -/
def newExpiry (g : Guard) (cap : Capability) : Option ℤ → ℤ
  | none => cap.expiry
  | some lease => g.now + lease

/-- `attenuate`: the parent has to verify, what is asked for has to be implied by its grants, and
    the lease may not be longer. A parent that does not verify leaves no audit event. -/
def attenuate (g : Guard) (cap : Capability) (grants : Option (Finset Str)) (lease : Option ℤ) :
    Except Fault Outcome × Guard :=
  match g.verify (some cap) with
  | .error e => (.error e, g)
  | .ok false => (.ok { ok := false, error := lit "invalid-parent" }, g)
  | .ok true =>
    if ¬ ∀ x ∈ grants.getD cap.grants.toFinset, grantImplied cap.grants x then
      (.ok (denied "permission-widened"),
        g.audited "attenuate-denied" [("reason", str (lit "widen"))])
    else if cap.expiry < g.newExpiry cap lease then
      (.ok (denied "lease-extended"),
        g.audited "attenuate-denied" [("reason", str (lit "extend"))])
    else
      granted (g.issue cap.subject (grants.getD cap.grants.toFinset) cap.resource cap.operation
          (g.newExpiry cap lease) cap.epoch) "attenuate" fun derived =>
        [("parent", str cap.capId), ("cap_id", str derived.capId)]

/-- `revoke`. The id need not be one that was given out. -/
def revoke (g : Guard) (capId : Str) : Guard :=
  { g with revoked := insert capId g.revoked }.audited "revoke" [("cap_id", str capId)]

/-- `revoke_all`: the epoch is counted first, and the event has the new epoch in it. -/
def revokeAll (g : Guard) : Except Fault Unit × Guard :=
  let g := { g with minEpoch := g.minEpoch + 1 }
  match Book.digest domain (auditParts "revoke-all" [("epoch", int g.minEpoch)]) with
  | .error e => (.error e, g)
  | .ok hash => (.ok (), { g with audit := g.audit ++ [hash] })

/-- The capability, if it verifies and is bound to the resource. -/
def bound (g : Guard) (cap : Option Capability) (resource : Str) :
    Except Fault (Option Capability) := do
  let valid ← g.verify cap
  return if valid then cap.filter fun cap => cap.resource = resource else none

/-- `reveal`: what is not authorized is refused, then what is of a level above the ceiling. The
    level of the value is looked up only when it is authorized, so an unknown label raises only
    then. -/
def reveal (g : Guard) (cap : Option Capability) (value : SecureValue) :
    Except Fault Outcome × Guard :=
  match g.bound cap value.resource with
  | .error e => (.error e, g)
  | .ok none =>
      (.ok { denied "unauthorized" with revealed := some redacted },
        g.audited "reveal-refused" [("resource", str value.resource)])
  | .ok (some cap) =>
    match level? value.label with
    | none => (.error (.valueError (lit "tuple.index(x): x not in tuple")), g)
    | some level =>
      if readCeiling cap.grants < level then
        (.ok { denied "below-clearance" with revealed := some redacted },
          g.audited "reveal-redacted"
            [("resource", str value.resource), ("label", str value.label)])
      else
        (.ok { ok := true, revealed := some value.cleartext, auditPresent := true },
          g.audited "reveal" [("cap_id", str cap.capId), ("resource", str value.resource)])

/-- `declassify`. Without a capability that is bound to the resource it leaves no audit event. -/
def declassify (g : Guard) (cap : Option Capability) (value : SecureValue) :
    Except Fault Outcome × Guard :=
  match g.bound cap value.resource with
  | .error e => (.error e, g)
  | .ok none => (.ok { ok := false, error := lit "unauthorized" }, g)
  | .ok (some cap) =>
    if lit "declassify" ∉ cap.grants then
      (.ok (denied "no-declassify-grant"),
        g.audited "declassify-refused" [("resource", str value.resource)])
    else
      (.ok { ok := true, auditPresent := true },
        g.audited "declassify" [("cap_id", str cap.capId), ("resource", str value.resource)])

/-- `invoke` of a capability that does not verify, or of none. -/
def ambient (g : Guard) (tool : Str) : Except Fault Outcome × Guard :=
  (.ok (denied "ambient-denied"),
    g.audited "invoke-denied" [("tool", str tool), ("reason", str (lit "no-capability"))])

/-- `invoke`: to have no capability, to have one for another resource, and to have one for another
    tool or operation, are told apart in the reply. -/
def invoke (g : Guard) (cap : Option Capability) (tool resource operation : Str) :
    Except Fault Outcome × Guard :=
  match g.verify cap, cap with
  | .error e, _ => (.error e, g)
  | .ok false, _ => g.ambient tool
  | .ok true, none => g.ambient tool
  | .ok true, some cap =>
    if cap.resource ≠ resource then
      (.ok (denied "cross-resource"),
        g.audited "invoke-denied" [("tool", str tool), ("reason", str (lit "resource"))])
    else if lit "tool:" ++ tool ∉ cap.grants ∨ cap.operation ≠ operation then
      (.ok (denied "confused-deputy"),
        g.audited "invoke-denied" [("tool", str tool), ("reason", str (lit "confused-deputy"))])
    else
      (.ok { ok := true, auditPresent := true },
        g.audited "invoke"
          [("cap_id", str cap.capId), ("tool", str tool), ("resource", str resource)])

/-- `request`: a payload with a field outside `REQUEST_FIELDS` is rejected before anything is read
    of it. The required fields are read in the order of the arguments of `mint`. -/
def request (g : Guard) (p : Payload) : Except Fault Outcome × Guard :=
  if p.extra ≠ ∅ then
    (.ok (denied "unknown-fields"),
      g.audited "wire-rejected" [("fields", list ((sorted p.extra).map str))])
  else
    match p.subject, p.grants, p.resource with
    | none, _, _ => (.error (.keyError (lit "subject")), g)
    | some _, none, _ => (.error (.keyError (lit "grants")), g)
    | some _, some _, none => (.error (.keyError (lit "resource")), g)
    | some subject, some grants, some resource =>
        g.mint subject grants.toFinset resource (p.operation.getD []) (p.lease.getD 100)

omit [Runtime] in
/-- `restart`: a new guard with copies of all it holds. -/
def restart (g : Guard) : Guard where
  policy := g.policy
  revoked := g.revoked
  minEpoch := g.minEpoch
  now := g.now
  audit := g.audit
  n := g.n

end Guard

/-!
## The machine

Each command is one call of the guard. Its reply is the outcome, or what was raised, and the guard
that is left is given with both, since some operations change it before they raise.
-/

/-- What the guard can be asked. A capability that is presented may be any, also one that the
    guard never gave out; so a forgery is a command like any other. -/
inductive Command
  | grantPolicy (subject resource : Str) (grants : Finset Str)
  | tick (n : ℤ)
  | mint (subject : Str) (grants : Finset Str) (resource operation : Str) (lease : ℤ)
  | attenuate (cap : Capability) (grants : Option (Finset Str)) (lease : Option ℤ)
  | revoke (capId : Str)
  | revokeAll
  | reveal (cap : Option Capability) (value : SecureValue)
  | declassify (cap : Option Capability) (value : SecureValue)
  | invoke (cap : Option Capability) (tool resource operation : Str)
  | request (p : Payload)
  | restart

/-- An outcome, or nothing; or what was raised. -/
abbrev Reply := Except Fault (Option Outcome)

/-- An operation that has an outcome. -/
def outcomeOf (r : Except Fault Outcome × Guard) : Reply × Guard := (r.1.map some, r.2)

/-- One command: what is replied, and the guard after it. -/
def Guard.step (g : Guard) : Command → Reply × Guard
  | .grantPolicy subject resource grants => (.ok none, g.grantPolicy subject resource grants)
  | .tick n => (.ok none, g.tick n)
  | .mint subject grants resource operation lease =>
      outcomeOf (g.mint subject grants resource operation lease)
  | .attenuate cap grants lease => outcomeOf (g.attenuate cap grants lease)
  | .revoke capId => (.ok none, g.revoke capId)
  | .revokeAll => ((g.revokeAll).1.map fun _ => none, (g.revokeAll).2)
  | .reveal cap value => outcomeOf (g.reveal cap value)
  | .declassify cap value => outcomeOf (g.declassify cap value)
  | .invoke cap tool resource operation => outcomeOf (g.invoke cap tool resource operation)
  | .request p => outcomeOf (g.request p)
  | .restart => (.ok none, g.restart)

/-- The guard under any sequence of commands. -/
def guard : Machine Guard Command Reply where
  init := Guard.new
  step := Guard.step

end Guard

end CapabilityAdversarial

end AdversarialCognition
