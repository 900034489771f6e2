import AdversarialCognition.Lib.Str
import AdversarialCognition.Lib.Dict
import AdversarialCognition.Lib.Date
import AdversarialCognition.Lib.Ranking
import Mathlib.Data.Finset.Card

/-!
# The reference backend

`adversarial_cognition/backend.py`: the policy core every benchmark run is scored against. Each
operation takes the backend and answers with a reply and the backend it leaves behind. The reply
is an `Except`, because `digest` encodes its argument and Python refuses to encode a lone
surrogate: an operation may raise after it has written to the store, and then the state it leaves
behind is the half-applied one.

An operation burns its nonce first (`claim`) and asks questions afterwards. That order, and the
order of the checks below it, are the source's.

## Reading the definitions

Each of them follows its method line by line. `b` is bound again after every assignment, so the
store that a later line reads is the one the earlier lines left. Nothing is simplified on the way:
`improve` marks the target and stores the replacement before it computes the receipt, `forget`
makes a pass over all items, and a decision is recorded last of all. Several results further up
are about just this order.

Two things are other than in the source. The tables are `Dict` and `Finset`, of which the first
keeps the order of insertion and the second has none that could be seen. And the texts that are
digested have definitions of their own, as a receipt is only as good as the text under it.

## What is left out

`seed` has a module of its own. Nothing is said of threads: the source takes no lock, and is driven
by one caller at a time.
-/

namespace AdversarialCognition

open Py Py.Str

/-- `TOKEN = re.compile(r"[a-z0-9]+")`, one character of it. A text is put in lower case before it
    is searched. -/
def isTokenChar (c : CodePoint) : Bool :=
  (0x61 ≤ c.val ∧ c.val ≤ 0x7A) ∨ (0x30 ≤ c.val ∧ c.val ≤ 0x39)

def maxQueryChars : ℕ := 4096

def maxTextChars : ℕ := 4096

/-- Who asks, with what it may do. The defaults are the source's, and are those of the operator. -/
structure Actor where
  did : Str
  tenant : Str := "agstack"
  space : Str := "coffee"
  purpose : Str := "market-research"
  clearance : ℤ := 1
  canMutate : Bool := true
  deriving DecidableEq

/-- A stored record. Its `state` is one of three texts, of which only `current` can be recalled. -/
structure Memory where
  memoryId : Str
  text : Str
  source : Str
  sourceDigest : Str
  tenant : Str := "agstack"
  space : Str := "coffee"
  sensitivity : ℤ := 1
  validFrom : Date := ⟨2026, 1, 1, by decide, by decide, by decide⟩
  validUntil : Option Date := none
  state : Str := "current"
  derivedFrom : List Str := []
  purpose : Str := "market-research"
  deriving DecidableEq

/-- What an operation answers, allowed or not. A refusal has an error and neither ids nor a
    receipt. -/
structure Decision where
  allowed : Bool
  ids : List Str := []
  error : Str := []
  receipt : Str := []
  deriving DecidableEq

/-- `Decision(False, error=error)` -/
def denied (error : Str) : Decision := { allowed := false, error := error }

/-- What an operation comes back with: a decision, or the exception it raised. -/
abbrev Reply := Except Exn Decision

section Digest

variable [Runtime]

/-- `digest`: the tagged hexadecimal SHA-256 of the UTF-8 bytes, if there are any. It raises on a
    text with a lone surrogate. -/
def digest (value : Str) : Except Exn Str :=
  match value.encode with
  | .ok bytes => .ok (lit "sha256:" ++ (Runtime.sha256 bytes).flatMap fun b => hex 2 b.toNat)
  | .error e => .error e

theorem digest_ok_iff {value : Str} : (∃ r, digest value = .ok r) ↔ Encodable value := by
  rw [← encode_ok_iff]
  unfold digest
  cases value.encode <;> simp

end Digest

/-- `words`: the distinct tokens of a text. -/
def words (value : Str) : Finset Str := (runs isTokenChar (lower value)).toFinset

/-- The three tables of the backend. The key of a nonce is the pair of the caller's DID and the
    nonce, and an idempotency key stands alone, whoever uses it. -/
structure AdversarialBackend where
  memories : Dict Str Memory
  nonces : Finset (Str × Str)
  idempotency : Dict Str Decision

def AdversarialBackend.new : AdversarialBackend where
  memories := Dict.empty
  nonces := ∅
  idempotency := Dict.empty

/-- `_authorized`. The DID is not asked for: an actor with the tenant, space, purpose and
    clearance of another may do what that one may. -/
def authorized (memory : Memory) (actor : Actor) : Bool :=
  memory.tenant = actor.tenant ∧ memory.space = actor.space ∧
    memory.sensitivity ≤ actor.clearance ∧ memory.purpose = actor.purpose

/-!
## The text of a receipt, before it is digested

The receipt of an operation is the digest of a text, and the four texts are put together here.
They are needed as texts, since an operation raises where its text has no UTF-8 form, and by then
it may have written to the store.
-/

def rememberText (memory : Memory) : Str :=
  lit "remember:" ++ memory.memoryId ++ lit ":" ++ memory.sourceDigest

/-- `str` of one `(score, memory_id)` pair. -/
def entryText [Runtime] (entry : ℕ × Str) : Str :=
  lit "(" ++ ofNat entry.1 ++ lit ", " ++ Str.repr entry.2 ++ lit ")"

/-- `f"recall:{ranked}"`, with the list printed as Python prints one. -/
def recallText [Runtime] (ranked : List (ℕ × Str)) : Str :=
  lit "recall:[" ++ ((ranked.map entryText).intersperse (lit ", ")).flatten ++ lit "]"

def improveText (memoryId replacementId : Str) : Str :=
  lit "improve:" ++ memoryId ++ lit ":" ++ replacementId

def forgetText (memoryId : Str) : Str := lit "forget:" ++ memoryId

namespace AdversarialBackend

/-- `_claim`: whether the nonce was free, and the backend with it taken. -/
def claim (b : AdversarialBackend) (actor : Actor) (nonce : Str) : Bool × AdversarialBackend :=
  let key := (actor.did, nonce)
  if key ∈ b.nonces then (false, b)
  else (true, { b with nonces := insert key b.nonces })

variable [Runtime]

/-- `remember`. The record is stored under its own id, whatever is there, and before the receipt
    is computed. -/
def remember (b : AdversarialBackend) (memory : Memory) (actor : Actor) (nonce : Str) :
    Reply × AdversarialBackend :=
  let (claimed, b) := b.claim actor nonce
  if !claimed || !actor.canMutate then (.ok (denied "replay-or-mutation-denied"), b)
  else if memory.text.length > maxTextChars then (.ok (denied "oversized-memory"), b)
  else if memory.tenant ≠ actor.tenant ∨ memory.space ≠ actor.space then
    (.ok (denied "scope-denied"), b)
  else if memory.sensitivity > actor.clearance then (.ok (denied "clearance-denied"), b)
  else
    let b := { b with memories := b.memories.set memory.memoryId memory }
    match digest (rememberText memory) with
    | .error e => (.error e, b)
    | .ok receipt => (.ok { allowed := true, ids := [memory.memoryId], receipt := receipt }, b)

/-- The body of `recall`'s loop: what one memory adds to `ranked`. -/
def rankEntry (queryWords : Finset Str) (actor : Actor) (asOf : Date) (memory : Memory) :
    Option (ℕ × Str) :=
  if memory.state ≠ lit "current" ∨ !authorized memory actor then none
  else if asOf < memory.validFrom ∨ memory.validUntil.any (· ≤ asOf) then none
  else
    let score := (queryWords ∩ words memory.text).card
    if score ≠ 0 then some (score, memory.memoryId) else none

/-- `ranked` after the loop and the sort. -/
def ranked (b : AdversarialBackend) (query : Str) (actor : Actor) (asOf : Date) :
    List (ℕ × Str) :=
  Ranking.sort (b.memories.values.filterMap (rankEntry (words query) actor asOf))

/-- `recall`, which changes nothing but the nonces. -/
def «recall» (b : AdversarialBackend) (query : Str) (actor : Actor) (asOf : Date)
    (nonce : Str) : Reply × AdversarialBackend :=
  -- quoted in the name: with all of Mathlib imported, the bare word is a keyword
  let (claimed, b) := b.claim actor nonce
  if !claimed then (.ok (denied "replay"), b)
  else if query.length > maxQueryChars then (.ok (denied "oversized-query"), b)
  else
    let ranked := b.ranked query actor asOf
    match digest (recallText ranked) with
    | .error e => (.error e, b)
    | .ok receipt => (.ok { allowed := true, ids := ranked.map Prod.snd, receipt := receipt }, b)

/-- `improve`. A recorded decision is answered before the target is looked at, and the replacement
    is asked for nothing but its sensitivity. -/
def improve (b : AdversarialBackend) (memoryId : Str) (replacement : Memory) (actor : Actor)
    (nonce expectedSourceDigest idempotencyKey : Str) : Reply × AdversarialBackend :=
  let (claimed, b) := b.claim actor nonce
  if !claimed || !actor.canMutate then (.ok (denied "replay-or-mutation-denied"), b)
  else
    match b.idempotency.get? idempotencyKey with
    | some decision => (.ok decision, b)
    | none =>
      match b.memories.get? memoryId with
      | none => (.ok (denied "stale-source"), b)
      | some current =>
        if current.sourceDigest ≠ expectedSourceDigest then (.ok (denied "stale-source"), b)
        else if !authorized current actor ∨ replacement.sensitivity > actor.clearance then
          (.ok (denied "authorization-denied"), b)
        else
          -- both writes come before the receipt, and stay if it cannot be made
          let b := { b with
            memories := b.memories.set memoryId { current with state := lit "superseded" } }
          let b := { b with memories := b.memories.set replacement.memoryId replacement }
          match digest (improveText memoryId replacement.memoryId) with
          | .error e => (.error e, b)
          | .ok receipt =>
            let decision : Decision :=
              { allowed := true, ids := [memoryId, replacement.memoryId], receipt := receipt }
            (.ok decision, { b with idempotency := b.idempotency.set idempotencyKey decision })

/-- `forget`'s loop: one pass over the items, marking those derived from `memoryId`. -/
def cascade (memories : Dict Str Memory) (memoryId : Str) : Dict Str Memory :=
  memories.updateWhere (fun value => memoryId ∈ value.derivedFrom)
    fun value => { value with state := lit "forgotten" }

/-- `forget`. The named record and those that name it are marked; what is derived from these is
    not. -/
def forget (b : AdversarialBackend) (memoryId : Str) (actor : Actor) (nonce : Str) :
    Reply × AdversarialBackend :=
  let (claimed, b) := b.claim actor nonce
  if !claimed || !actor.canMutate then (.ok (denied "replay-or-mutation-denied"), b)
  else
    match b.memories.get? memoryId with
    | none => (.ok (denied "authorization-denied"), b)
    | some memory =>
      if !authorized memory actor then (.ok (denied "authorization-denied"), b)
      else
        let b := { b with
          memories := b.memories.set memoryId { memory with state := lit "forgotten" } }
        let b := { b with memories := cascade b.memories memoryId }
        match digest (forgetText memoryId) with
        | .error e => (.error e, b)
        | .ok receipt => (.ok { allowed := true, ids := [memoryId], receipt := receipt }, b)

/-- `restart`: a new backend with copies of the three tables. -/
def restart (b : AdversarialBackend) : AdversarialBackend where
  memories := b.memories
  nonces := b.nonces
  idempotency := b.idempotency

end AdversarialBackend

end AdversarialCognition
