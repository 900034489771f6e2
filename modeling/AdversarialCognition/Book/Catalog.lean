import AdversarialCognition.Book.Digest
import AdversarialCognition.Lib.Journal

/-!
# The reference catalog

`docs/book/code/catalog-provenance/catalog_provenance/backend.py`: the model of a governed catalog
that the provenance suite is scored against. A commit asserts the pointer it read; if the pointer
is still there, the table advances, and the receipt and the evidence are staged with it.

## What is modelled

All six stores, and every operation on them. Whatever can raise is computed before anything is
written: the digests over a snapshot id, which `str` may refuse to print, and the digest of the
policy, which may not encode. The other digests are over texts alone, and are taken from `hashed`.

The checks of a commit come in the order of the source: the lengths, the stored outcome of the
key, the table, the pointer. So a key that is stored is answered even for a table that is gone.

## Events

The catalog is sourced by its events (`sourced`): a table created, or a receipt recorded. Which
ones a run made is read off its replies, and the state is what they make of the empty catalog. For
that a receipt says everything about the table it leaves behind (`Receipt.entry`), and a stored
outcome that is replied again makes no event.

What one operation can do is said once (`commit_cases`, `tombstone_cases`): nothing, or one
receipt recorded, of a live table that it extends (`Extends`).

## What is not

`scan` changes nothing, and its receipt is kept nowhere, so it is no event. The principal that a
table is created by is read by nothing.
-/

namespace AdversarialCognition

namespace CatalogProvenance

open Py Py.Str Py.Json Book

/-- `DOMAIN` -/
def domain : Str := lit "querygraph.catalog-provenance.v1"

/-- `MAX_TEXT`, in characters. -/
def maxText : ℕ := 4096

/-- `Receipt`: one transition of a table. The hash is over the rest of the receipt. -/
structure Receipt where
  table : Str
  op : Str
  previousMetadata : Str
  newMetadata : Str
  snapshotId : ℤ
  principal : Str
  policyHash : Str
  idempotencyKey : Str
  requestHash : Str
  responseHash : Str
  prevReceipt : Str
  receiptHash : Str := []
  deriving DecidableEq

/-- `ScanReceipt`: a scan and the policies it was planned under. -/
structure ScanReceipt where
  table : Str
  principal : Str
  policyHashes : List Str
  snapshotId : ℤ
  receiptHash : Str := []
  deriving DecidableEq

/-- `Outcome`, of any operation. -/
structure Outcome where
  ok : Bool
  error : Str := []
  receipt : Option Receipt := none
  scanReceipt : Option ScanReceipt := none
  auditPresent : Bool := false
  outboxPresent : Bool := false
  lineagePresent : Bool := false
  deriving DecidableEq

/-- `Outcome(False, error)` -/
def refused (error : String) : Outcome := { ok := false, error := lit error }

/-- `_Table`: the pointer, the snapshot, the receipt that led there, and whether it was dropped. -/
structure Table where
  metadata : Str
  snapshotId : ℤ
  headReceipt : Str
  tombstoned : Bool := false
  deriving DecidableEq

/-- The six stores of `ReferenceCatalog`. -/
structure ReferenceCatalog where
  tables : Dict Str Table
  idempotency : Dict Str Outcome
  audit : List Str
  outbox : List Str
  lineage : List Str
  receipts : Dict Str Receipt

/-- All of them empty. -/
def ReferenceCatalog.new : ReferenceCatalog where
  tables := Dict.empty
  idempotency := Dict.empty
  audit := []
  outbox := []
  lineage := []
  receipts := Dict.empty

/-- The arguments of `commit`. The update, the policy and the nonce go only into digests. -/
structure CommitRequest where
  table : Str
  expectedMetadata : Str
  update : Str
  principal : Str
  policy : Str
  nonce : Str
  idempotencyKey : Str

/-!
## Receipts

A receipt is sealed by the digest of its other fields. What the operations put into one is
computed from the table, before the table is changed.
-/

/-- The arguments of the digest that seals a receipt. -/
def Receipt.body (r : Receipt) : List Json :=
  [str (lit "receipt"), str r.table, str r.op, str r.previousMetadata, str r.newMetadata,
    int r.snapshotId, str r.principal, str r.policyHash, str r.idempotencyKey, str r.requestHash,
    str r.responseHash, str r.prevReceipt]

/-- The arguments of the digest that seals the receipt of a scan. -/
def ScanReceipt.body (r : ScanReceipt) : List Json :=
  [str (lit "scan"), str r.table, str r.principal, list (r.policyHashes.map str), int r.snapshotId]

/-- The arguments of the digest that a pointer is: of a table as created, or of an update. -/
def metaParts (table : Str) (snapshotId : ℤ) (update : Option Str) : List Json :=
  [str (lit "meta"), str table, int snapshotId] ++ (update.map str).toList

section Catalog

variable [Runtime]

/-- `digest(*parts)` -/
def digest (parts : List Json) : Except Fault Str := Book.digest domain parts

/-- `policy_digest`: the text is hashed as it stands, so it has to encode. -/
def policyDigest (policy : Str) : Except Fault Str :=
  sha256Hex (lit "policy" ++ CodePoint.ofChar (Char.ofNat 0) :: policy)

/-- `sealed`: the receipt, hashed. -/
def Receipt.sealed (r : Receipt) : Except Fault Receipt := do
  let hash ← digest r.body
  return { r with receiptHash := hash }

/-- `verifies`: whether the hash is that of the rest. -/
def Receipt.verifies (r : Receipt) : Except Fault Bool := do
  let sealed ← r.sealed
  return sealed.receiptHash == r.receiptHash

/-- `sealed`, of the receipt of a scan. -/
def ScanReceipt.sealed (r : ScanReceipt) : Except Fault ScanReceipt := do
  let hash ← digest r.body
  return { r with receiptHash := hash }

/-- `verifies`, against the policies that are expected. The hash is computed only if they are
    those of the receipt, and there are some. -/
def ScanReceipt.verifies (r : ScanReceipt) (expected : List Str) : Except Fault Bool :=
  if r.policyHashes ≠ [] ∧ r.policyHashes = expected then do
    let sealed ← r.sealed
    return sealed.receiptHash == r.receiptHash
  else .ok false

/-- `digest("meta", table, 0)` -/
def genesis (table : Str) : Str := hashed domain (metaParts table 0 none)

/-- `digest(kind, receipt_hash)`, an entry of the audit, the outbox or the lineage. -/
def evidence (kind : String) (receiptHash : Str) : Str :=
  hashed domain [str (lit kind), str receiptHash]

/-- What `commit` makes of the table it advances, before it writes anything. The digests are taken
    in the order of the source, which decides what is raised. -/
def commitReceipt (entry : Table) (q : CommitRequest) : Except Fault Receipt := do
  let newSnapshot := entry.snapshotId + 1
  let newMeta ← digest (metaParts q.table newSnapshot (some q.update))
  let requestHash := hashed domain [str (lit "request"), str q.table, str q.expectedMetadata,
    str q.update, str q.nonce]
  let responseHash ← digest [str (lit "response"), str q.table, str newMeta, int newSnapshot]
  let policyHash ← policyDigest q.policy
  Receipt.sealed {
    table := q.table, op := lit "commit", previousMetadata := q.expectedMetadata,
    newMetadata := newMeta, snapshotId := newSnapshot, principal := q.principal,
    policyHash := policyHash, idempotencyKey := q.idempotencyKey, requestHash := requestHash,
    responseHash := responseHash, prevReceipt := entry.headReceipt }

/-- What `tombstone` makes of the table it drops. The pointer that it puts into the receipt is not
    one the table will have. -/
def tombstoneReceipt (entry : Table) (table principal policy nonce : Str) :
    Except Fault Receipt := do
  let requestHash := hashed domain [str (lit "request"), str table, str (lit "drop"), str nonce]
  let newMeta := hashed domain [str (lit "meta"), str table, str (lit "tombstone")]
  let policyHash ← policyDigest policy
  Receipt.sealed {
    table := table, op := lit "tombstone", previousMetadata := entry.metadata,
    newMetadata := newMeta, snapshotId := entry.snapshotId, principal := principal,
    policyHash := policyHash, idempotencyKey := [], requestHash := requestHash,
    responseHash := hashed domain [str (lit "response"), str (lit "dropped")],
    prevReceipt := entry.headReceipt }

/-!
## The operations

The operations, with the checks in the order of the source. What comes back with an outcome is the
catalog after it; where an operation raises, the catalog is as it was.
-/

/-- The outcome of a commit that went through: the receipt, and that all evidence is there. -/
def committed (r : Receipt) : Outcome :=
  { ok := true, receipt := some r, auditPresent := true, outboxPresent := true,
    lineagePresent := true }

/-- The outcome of a tombstone that went through. It has no lineage. -/
def dropped (r : Receipt) : Outcome :=
  { ok := true, receipt := some r, auditPresent := true, outboxPresent := true }

namespace ReferenceCatalog

/-- `_bad_text` -/
def badText (values : List Str) : Bool := values.any fun v => maxText < v.length

omit [Runtime] in
/-- `pointer`: that of the table, also if it was dropped. -/
def pointer (c : ReferenceCatalog) (table : Str) : Str :=
  match c.tables.get? table with
  | some entry => entry.metadata
  | none => []

/-- `create`: a table of that name starts anew, whatever was there. -/
def create (c : ReferenceCatalog) (table _principal : Str) : Outcome × ReferenceCatalog :=
  ({ ok := true }, { c with tables := c.tables.set table ⟨genesis table, 0, [], false⟩ })

/-- The outcome stored under a key that is not empty. -/
def stored (c : ReferenceCatalog) (key : Str) : Option Outcome :=
  if key = [] then none else c.idempotency.get? key

/-- The table, unless it is gone. -/
def live (c : ReferenceCatalog) (table : Str) : Option Table :=
  match c.tables.get? table with
  | none => none
  | some entry => if entry.tombstoned then none else some entry

/-- `commit`: a compare-and-swap on the pointer, and a retry under a stored key replied as before.
    -/
def commit (c : ReferenceCatalog) (q : CommitRequest) : Except Fault Outcome × ReferenceCatalog :=
  if badText [q.update, q.policy] then (.ok (refused "oversized"), c)
  else
    match c.stored q.idempotencyKey with
    | some outcome => (.ok outcome, c)
    | none =>
      match c.live q.table with
      | none => (.ok (refused "no-such-table"), c)
      | some entry =>
        if q.expectedMetadata ≠ entry.metadata then (.ok (refused "stale-metadata"), c)
        else
          match commitReceipt entry q with
          | .error e => (.error e, c)
          | .ok r =>
            let c := { c with
              tables := c.tables.set q.table
                { entry with
                  metadata := r.newMetadata, snapshotId := r.snapshotId, headReceipt := r.receiptHash }
              receipts := c.receipts.set r.receiptHash r
              audit := c.audit ++ [evidence "audit" r.receiptHash]
              outbox := c.outbox ++ [evidence "outbox" r.receiptHash]
              lineage := c.lineage ++ [evidence "lineage" r.receiptHash] }
            if q.idempotencyKey = [] then (.ok (committed r), c)
            else
              (.ok (committed r),
                { c with idempotency := c.idempotency.set q.idempotencyKey (committed r) })

/-- `scan`: it writes nothing. -/
def scan (c : ReferenceCatalog) (table principal policy : Str) : Except Fault Outcome :=
  match c.live table with
  | none => .ok (refused "no-such-table")
  | some entry => do
      let policyHash ← policyDigest policy
      let receipt ← ScanReceipt.sealed {
        table := table, principal := principal, policyHashes := [policyHash],
        snapshotId := entry.snapshotId }
      return { ok := true, scanReceipt := some receipt }

/-- `tombstone`: the table is marked as dropped, and stays at its pointer. -/
def tombstone (c : ReferenceCatalog) (table principal policy nonce : Str) :
    Except Fault Outcome × ReferenceCatalog :=
  match c.live table with
  | none => (.ok (refused "no-such-table"), c)
  | some entry =>
    match tombstoneReceipt entry table principal policy nonce with
    | .error e => (.error e, c)
    | .ok r =>
      (.ok (dropped r),
        { c with
          tables := c.tables.set table { entry with tombstoned := true, headReceipt := r.receiptHash }
          receipts := c.receipts.set r.receiptHash r
          audit := c.audit ++ [evidence "audit" r.receiptHash]
          outbox := c.outbox ++ [evidence "outbox" r.receiptHash] })

/-- `replay`: the receipt is consistent, and one of its hash was recorded. -/
def replay (c : ReferenceCatalog) (receipt : Receipt) : Except Fault Bool := do
  let verifies ← receipt.verifies
  return verifies && (c.receipts.get? receipt.receiptHash).isSome

/-- `restart`: a new catalog with copies of the six stores. -/
def restart (c : ReferenceCatalog) : ReferenceCatalog where
  tables := c.tables
  idempotency := c.idempotency
  audit := c.audit
  outbox := c.outbox
  lineage := c.lineage
  receipts := c.receipts

end ReferenceCatalog

/-!
## The machine

A command is a call of an operation, or a restart, which copies the stores.
-/

/-- What the catalog can be asked. A receipt that is replayed may be any. -/
inductive Command
  | create (table principal : Str)
  | commit (q : CommitRequest)
  | scan (table principal policy : Str)
  | tombstone (table principal policy nonce : Str)
  | replay (receipt : Receipt)
  | restart

/-- What a command comes back with, if it does not raise. -/
inductive Answer
  | outcome (o : Outcome)
  | verdict (b : Bool)
  | restarted

namespace ReferenceCatalog

/-- One command: what it comes back with, and the catalog after it. -/
def step (c : ReferenceCatalog) : Command → Except Fault Answer × ReferenceCatalog
  | .create table principal =>
      let (outcome, c) := c.create table principal
      (.ok (.outcome outcome), c)
  | .commit q =>
      let (reply, c) := c.commit q
      (reply.map .outcome, c)
  | .scan table principal policy => ((c.scan table principal policy).map .outcome, c)
  | .tombstone table principal policy nonce =>
      let (reply, c) := c.tombstone table principal policy nonce
      (reply.map .outcome, c)
  | .replay receipt => ((c.replay receipt).map .verdict, c)
  | .restart => (.ok .restarted, c.restart)

end ReferenceCatalog

/-- The catalog under any sequence of commands. -/
def catalog : Machine ReferenceCatalog Command (Except Fault Answer) where
  init := ReferenceCatalog.new
  step := ReferenceCatalog.step

/-!
## Its events

An event is what changed the catalog: a table created, or a receipt recorded. A reply tells which,
if any, and the state follows from the events by `applied`. The lemmas are the case analysis of
the two operations that record a receipt; whatever is proved about the catalog later is proved
from them.
-/

/-- The table a receipt leaves behind. -/
def Receipt.entry (r : Receipt) : Table :=
  if r.op = lit "tombstone" then ⟨r.previousMetadata, r.snapshotId, r.receiptHash, true⟩
  else ⟨r.newMetadata, r.snapshotId, r.receiptHash, false⟩

/-- What changes the catalog. -/
inductive Event
  | created (table : Str)
  | recorded (r : Receipt)

/-- The event a reply tells of. -/
def replied (reply : Except Fault Outcome) : Option Event :=
  match reply with
  | .ok outcome => outcome.receipt.map .recorded
  | .error _ => none

/-- What the command made, as its reply tells it. A stored outcome makes nothing. -/
def eventOf (c : ReferenceCatalog) : Command → Option Event
  | .create table _ => some (.created table)
  | .commit q => if (c.stored q.idempotencyKey).isSome then none else replied (c.commit q).1
  | .tombstone table principal policy nonce => replied (c.tombstone table principal policy nonce).1
  | .scan _ _ _ => none
  | .replay _ => none
  | .restart => none

/-- What is left of an event in the six stores. -/
def applied (c : ReferenceCatalog) : Event → ReferenceCatalog
  | .created table =>
      { c with tables := c.tables.set table ⟨genesis table, 0, [], false⟩ }
  | .recorded r => {
      tables := c.tables.set r.table r.entry
      idempotency :=
        if r.idempotencyKey = [] then c.idempotency
        else c.idempotency.set r.idempotencyKey (committed r)
      audit := c.audit ++ [evidence "audit" r.receiptHash]
      outbox := c.outbox ++ [evidence "outbox" r.receiptHash]
      lineage := if r.op = lit "commit" then c.lineage ++ [evidence "lineage" r.receiptHash]
        else c.lineage
      receipts := c.receipts.set r.receiptHash r }

/-- What a receipt says of the table it was recorded for, and of the catalog: it extends the live
    table at its pointer and its head, and a commit was under a key that nothing is stored under. -/
structure Extends (c : ReferenceCatalog) (entry : Table) (r : Receipt) : Prop where
  live : c.live r.table = some entry
  previous : r.previousMetadata = entry.metadata
  prev : r.prevReceipt = entry.headReceipt
  hash : digest r.body = .ok r.receiptHash
  kind : (r.op = lit "commit" ∧ r.snapshotId = entry.snapshotId + 1 ∧
      (∃ update, digest (metaParts r.table r.snapshotId (some update)) = .ok r.newMetadata) ∧
      c.stored r.idempotencyKey = none) ∨
    (r.op = lit "tombstone" ∧ r.snapshotId = entry.snapshotId ∧ r.idempotencyKey = [])

theorem sealed_eq_ok_iff {r sealed : Receipt} : r.sealed = .ok sealed ↔
    ∃ hash, digest r.body = .ok hash ∧ sealed = { r with receiptHash := hash } := by
  rw [Receipt.sealed, bind_eq_ok_iff]
  simp only [pure, Except.pure, Except.ok.injEq, eq_comm]

theorem verifies_iff {r : Receipt} : r.verifies = .ok true ↔ digest r.body = .ok r.receiptHash := by
  rw [Receipt.verifies, Receipt.sealed]
  cases digest r.body with
  | error e => exact iff_of_false (fun h => by cases h) fun h => by cases h
  | ok hash =>
    show (.ok (hash == r.receiptHash) : Except Fault Bool) = .ok true ↔ _
    rw [Except.ok.injEq, Except.ok.injEq, beq_iff_eq]

omit [Runtime] in
theorem live_eq_some_iff {c : ReferenceCatalog} {table : Str} {entry : Table} :
    c.live table = some entry ↔ c.tables.get? table = some entry ∧ entry.tombstoned = false := by
  unfold ReferenceCatalog.live
  cases c.tables.get? table with
  | none => simp
  | some found =>
    dsimp only
    split_ifs with h
    · refine iff_of_false (by simp) fun hboth => ?_
      rw [Option.some.inj hboth.1, hboth.2] at h
      exact absurd h (by simp)
    · rw [Option.some.injEq]
      refine ⟨fun heq => ⟨heq, ?_⟩, And.left⟩
      rw [← heq]
      simpa using h

theorem commitReceipt_eq_ok_iff {entry : Table} {q : CommitRequest} {r : Receipt} :
    commitReceipt entry q = .ok r ↔ r.table = q.table ∧ r.op = lit "commit" ∧
      r.previousMetadata = q.expectedMetadata ∧ r.snapshotId = entry.snapshotId + 1 ∧
      r.principal = q.principal ∧ r.idempotencyKey = q.idempotencyKey ∧
      r.prevReceipt = entry.headReceipt ∧
      digest (metaParts q.table (entry.snapshotId + 1) (some q.update)) = .ok r.newMetadata ∧
      r.requestHash = hashed domain [str (lit "request"), str q.table, str q.expectedMetadata,
        str q.update, str q.nonce] ∧
      digest [str (lit "response"), str q.table, str r.newMetadata, int (entry.snapshotId + 1)] =
        .ok r.responseHash ∧
      policyDigest q.policy = .ok r.policyHash ∧ digest r.body = .ok r.receiptHash := by
  simp only [commitReceipt, bind_eq_ok_iff, sealed_eq_ok_iff]
  constructor
  · intro h
    obtain ⟨newMeta, hmeta, responseHash, hresponse, policyHash, hpolicy, hash, hhash, rfl⟩ := h
    exact ⟨rfl, rfl, rfl, rfl, rfl, rfl, rfl, hmeta, rfl, hresponse, hpolicy, hhash⟩
  · intro h
    obtain ⟨table, op, previous, new, snapshot, principal, policy, key, request, response, prev,
      hash⟩ := r
    dsimp only at h
    obtain ⟨rfl, rfl, rfl, rfl, rfl, rfl, rfl, hmeta, rfl, hresponse, hpolicy, hhash⟩ := h
    exact ⟨new, hmeta, response, hresponse, policy, hpolicy, hash, hhash, rfl⟩

omit [Runtime] in
@[simp] theorem printsInts_metaParts (table : Str) (n : ℤ) (update : Option Str) :
    printsInts (list (metaParts table n update)) = decide (n.natAbs < 10 ^ 4300) := by
  cases update with
  | none => simp only [metaParts, Option.map_none, Option.toList_none, List.append_nil, printsInts,
      printsItems, Bool.true_and, Bool.and_true]
  | some u => simp only [metaParts, Option.map_some, Option.toList_some, List.cons_append,
      List.nil_append, printsInts, printsItems, Bool.true_and, Bool.and_true]

omit [Runtime] in
@[simp] theorem printsInts_body (r : Receipt) :
    printsInts (list r.body) = decide (r.snapshotId.natAbs < 10 ^ 4300) := by
  simp only [Receipt.body, printsInts, printsItems, Bool.true_and, Bool.and_true]

/-- A receipt is made if the next snapshot can be printed, and the policy encoded. -/
theorem exists_commitReceipt_iff {entry : Table} {q : CommitRequest} :
    (∃ r, commitReceipt entry q = .ok r) ↔
      (entry.snapshotId + 1).natAbs < 10 ^ 4300 ∧ Encodable q.policy := by
  have hpolicy : (∃ hash, policyDigest q.policy = .ok hash) ↔ Encodable q.policy := by
    have htag : Encodable (lit "policy" ++ [CodePoint.ofChar (Char.ofNat 0)]) :=
      encodable_append.mpr ⟨encodable_lit _, encodable_singleton (by decide)⟩
    rw [policyDigest, sha256Hex_ok_iff, ← List.singleton_append, ← List.append_assoc,
      encodable_append]
    exact and_iff_right htag
  constructor
  · intro h
    obtain ⟨r, hr⟩ := h
    obtain ⟨-, -, -, -, -, -, -, hnew, -, -, hpol, -⟩ := commitReceipt_eq_ok_iff.mp hr
    obtain ⟨hsnapshot, -⟩ := digest_eq_ok_iff.mp hnew
    rw [printsInts_metaParts, decide_eq_true_eq] at hsnapshot
    exact ⟨hsnapshot, hpolicy.mp ⟨_, hpol⟩⟩
  · intro h
    obtain ⟨hsnapshot, hencodable⟩ := h
    obtain ⟨policyHash, hpol⟩ := hpolicy.mpr hencodable
    simp only [commitReceipt, bind_eq_ok_iff, sealed_eq_ok_iff, digest, digest_eq_ok_iff]
    refine ⟨_, _, ⟨?_, rfl⟩, _, ⟨?_, rfl⟩, policyHash, hpol, _, ⟨?_, rfl⟩, rfl⟩
    · rw [printsInts_metaParts, decide_eq_true_eq]
      exact hsnapshot
    · simpa only [printsInts, printsItems, Bool.true_and, Bool.and_true, decide_eq_true_eq]
        using hsnapshot
    · rw [printsInts_body, decide_eq_true_eq]
      exact hsnapshot

/-- The receipt of a commit extends the table, at the pointer it asserts. -/
theorem extends_of_commitReceipt {c : ReferenceCatalog} {entry : Table} {q : CommitRequest}
    {r : Receipt} (hlive : c.live q.table = some entry) (hmeta : q.expectedMetadata = entry.metadata)
    (hstored : c.stored q.idempotencyKey = none) (h : commitReceipt entry q = .ok r) :
    Extends c entry r := by
  obtain ⟨htable, hop, hprevious, hsnapshot, -, hkey, hprev, hnew, -, -, -, hhash⟩ :=
    commitReceipt_eq_ok_iff.mp h
  refine ⟨htable ▸ hlive, hprevious.trans hmeta, hprev, hhash,
    .inl ⟨hop, hsnapshot, ⟨q.update, ?_⟩, hkey ▸ hstored⟩⟩
  rw [htable, hsnapshot]
  exact hnew

theorem tombstoneReceipt_eq_ok_iff {entry : Table} {table principal policy nonce : Str}
    {r : Receipt} : tombstoneReceipt entry table principal policy nonce = .ok r ↔
      r.table = table ∧ r.op = lit "tombstone" ∧ r.previousMetadata = entry.metadata ∧
      r.newMetadata = hashed domain [str (lit "meta"), str table, str (lit "tombstone")] ∧
      r.snapshotId = entry.snapshotId ∧ r.principal = principal ∧ r.idempotencyKey = [] ∧
      r.requestHash = hashed domain [str (lit "request"), str table, str (lit "drop"), str nonce] ∧
      r.responseHash = hashed domain [str (lit "response"), str (lit "dropped")] ∧
      r.prevReceipt = entry.headReceipt ∧ policyDigest policy = .ok r.policyHash ∧
      digest r.body = .ok r.receiptHash := by
  simp only [tombstoneReceipt, bind_eq_ok_iff, sealed_eq_ok_iff]
  constructor
  · intro h
    obtain ⟨policyHash, hpolicy, hash, hhash, rfl⟩ := h
    exact ⟨rfl, rfl, rfl, rfl, rfl, rfl, rfl, rfl, rfl, rfl, hpolicy, hhash⟩
  · intro h
    obtain ⟨rtable, op, previous, new, snapshot, rprincipal, policyHash, key, request, response,
      prev, hash⟩ := r
    dsimp only at h
    obtain ⟨rfl, rfl, rfl, rfl, rfl, rfl, rfl, rfl, rfl, rfl, hpolicy, hhash⟩ := h
    exact ⟨policyHash, hpolicy, hash, hhash, rfl⟩

theorem extends_of_tombstoneReceipt {c : ReferenceCatalog} {entry : Table}
    {table principal policy nonce : Str} {r : Receipt} (hlive : c.live table = some entry)
    (h : tombstoneReceipt entry table principal policy nonce = .ok r) : Extends c entry r := by
  obtain ⟨htable, hop, hprevious, -, hsnapshot, -, hkey, -, -, hprev, -, hhash⟩ :=
    tombstoneReceipt_eq_ok_iff.mp h
  exact ⟨htable ▸ hlive, hprevious, hprev, hhash, .inr ⟨hop, hsnapshot, hkey⟩⟩

/-- **What a commit can do**: nothing, with no receipt but a stored one; or record the receipt
    it replies with. -/
theorem commit_cases (c : ReferenceCatalog) (q : CommitRequest) :
    ((c.commit q).2 = c ∧ ∀ o, (c.commit q).1 = .ok o →
        o.receipt = none ∨ c.stored q.idempotencyKey = some o) ∨
      ∃ entry r, Extends c entry r ∧ commitReceipt entry q = .ok r ∧
        c.commit q = (.ok (committed r), applied c (.recorded r)) := by
  have hrefused : ∀ (error : String) (stored : Option Outcome) (o : Outcome),
      (.ok (refused error) : Except Fault Outcome) = .ok o → o.receipt = none ∨ stored = some o := by
    intro error stored o ho
    rw [← Except.ok.inj ho]
    exact .inl rfl
  by_cases hbad : ReferenceCatalog.badText [q.update, q.policy]
  · rw [ReferenceCatalog.commit, if_pos hbad]
    exact .inl ⟨rfl, hrefused _ _⟩
  rw [ReferenceCatalog.commit, if_neg hbad]
  cases hstored : c.stored q.idempotencyKey with
  | some outcome => exact .inl ⟨rfl, fun o ho => .inr (congrArg some (Except.ok.inj ho))⟩
  | none =>
  cases hlive : c.live q.table with
  | none => exact .inl ⟨rfl, hrefused _ _⟩
  | some entry =>
  dsimp only
  by_cases hmeta : q.expectedMetadata = entry.metadata
  · rw [if_neg (not_not.mpr hmeta)]
    cases hreceipt : commitReceipt entry q with
    | error e => exact .inl ⟨rfl, fun o ho => by cases ho⟩
    | ok r =>
      have hextends := extends_of_commitReceipt hlive hmeta hstored hreceipt
      obtain ⟨htable, hop, -, -, -, hsame, -⟩ := commitReceipt_eq_ok_iff.mp hreceipt
      refine .inr ⟨entry, r, hextends, hreceipt, ?_⟩
      have halive := (live_eq_some_iff.mp hlive).2
      -- what is written into the table is what its receipt says
      have hentry : r.entry = { entry with
          metadata := r.newMetadata, snapshotId := r.snapshotId, headReceipt := r.receiptHash } := by
        rw [Receipt.entry, hop, if_neg (by decide), halive]
      dsimp only
      by_cases hkey : q.idempotencyKey = []
      · rw [if_pos hkey, applied, hentry, htable, hsame, if_pos hkey, if_pos hop]
      · rw [if_neg hkey, applied, hentry, htable, hsame, if_neg hkey, if_pos hop]
  · rw [if_pos hmeta]
    exact .inl ⟨rfl, hrefused _ _⟩

/-- **What a tombstone can do**: nothing, with no receipt; or record the receipt it replies
    with. -/
theorem tombstone_cases (c : ReferenceCatalog) (table principal policy nonce : Str) :
    ((c.tombstone table principal policy nonce).2 = c ∧
      ∀ o, (c.tombstone table principal policy nonce).1 = .ok o → o.receipt = none) ∨
      ∃ entry r, Extends c entry r ∧
        tombstoneReceipt entry table principal policy nonce = .ok r ∧
        c.tombstone table principal policy nonce = (.ok (dropped r), applied c (.recorded r)) := by
  rw [ReferenceCatalog.tombstone]
  cases hlive : c.live table with
  | none => exact .inl ⟨rfl, fun o ho => by rw [← Except.ok.inj ho]; rfl⟩
  | some entry =>
  dsimp only
  cases hreceipt : tombstoneReceipt entry table principal policy nonce with
  | error e => exact .inl ⟨rfl, fun o ho => by cases ho⟩
  | ok r =>
    have hextends := extends_of_tombstoneReceipt hlive hreceipt
    obtain ⟨htable, hop, -⟩ := tombstoneReceipt_eq_ok_iff.mp hreceipt
    refine .inr ⟨entry, r, hextends, hreceipt, ?_⟩
    obtain ⟨hcommit, _⟩ | ⟨_, hsnapshot, hkey⟩ := hextends.kind
    · exact absurd (hcommit.symm.trans hop) (by decide)
    have hentry : r.entry = { entry with tombstoned := true, headReceipt := r.receiptHash } := by
      rw [Receipt.entry, if_pos hop, hextends.previous, hsnapshot]
    have hlineage : ¬ r.op = lit "commit" := by rw [hop]; decide
    rw [applied, hentry, htable, if_pos hkey, if_neg hlineage]

theorem eventOf_of_commit {c : ReferenceCatalog} {q : CommitRequest} {entry : Table} {r : Receipt}
    (hextends : Extends c entry r) (hreceipt : commitReceipt entry q = .ok r)
    (h : c.commit q = (.ok (committed r), applied c (.recorded r))) :
    eventOf c (.commit q) = some (.recorded r) := by
  have hstored : c.stored q.idempotencyKey = none := by
    rw [← (commitReceipt_eq_ok_iff.mp hreceipt).2.2.2.2.2.1]
    rcases hextends.kind with ⟨_, _, _, hstored⟩ | ⟨_, _, hempty⟩
    · exact hstored
    · rw [ReferenceCatalog.stored, if_pos hempty]
  rw [eventOf, hstored, h]
  rfl

/-- **The state changes as the reply tells.** -/
theorem step_eq_applied (c : ReferenceCatalog) (cmd : Command) :
    (c.step cmd).2 = (eventOf c cmd).elim c (applied c) := by
  cases cmd with
  | create table principal => rfl
  | commit q =>
    obtain ⟨hsame, hreply⟩ | ⟨entry, r, hextends, hreceipt, heq⟩ := commit_cases c q
    · have hnone : eventOf c (.commit q) = none := by
        rw [eventOf]
        cases hcommit : (c.commit q).1 with
        | error e => exact ite_self _
        | ok o =>
          rcases hreply o hcommit with hreceipt | hstored
          · rw [replied, hreceipt]
            exact ite_self _
          · rw [hstored]
            rfl
      rw [hnone]
      exact hsame
    -- a receipt was recorded, and the reply is the receipt
    · rw [eventOf_of_commit hextends hreceipt heq]
      show (c.commit q).2 = applied c (.recorded r)
      rw [heq]
  | tombstone table principal policy nonce =>
    obtain ⟨hsame, hreply⟩ | ⟨entry, r, hextends, hreceipt, heq⟩ :=
      tombstone_cases c table principal policy nonce
    · have hnone : eventOf c (.tombstone table principal policy nonce) = none := by
        rw [eventOf]
        cases htombstone : (c.tombstone table principal policy nonce).1 with
        | error e => rfl
        | ok o =>
          rw [replied, hreply o htombstone]
          rfl
      rw [hnone]
      exact hsame
    · have hsome : eventOf c (.tombstone table principal policy nonce) = some (.recorded r) := by
        rw [eventOf, heq]
        rfl
      rw [hsome]
      show (c.tombstone table principal policy nonce).2 = applied c (.recorded r)
      rw [heq]
  | scan table principal policy => rfl
  | replay receipt => rfl
  | restart => rfl

/-- Only `create` creates a table. -/
theorem eventOf_created {c : ReferenceCatalog} {cmd : Command} {table : Str}
    (h : eventOf c cmd = some (.created table)) : ∃ principal, cmd = .create table principal := by
  have hreplied : ∀ reply, replied reply ≠ some (.created table) := by
    intro reply hreply
    cases reply with
    | error e => cases hreply
    | ok outcome =>
      obtain ⟨r, _, hr⟩ := Option.map_eq_some_iff.mp hreply
      cases hr
  cases cmd with
  | create name principal =>
    cases Option.some.inj h
    exact ⟨principal, rfl⟩
  | commit q =>
    rw [eventOf] at h
    split_ifs at h
    exact absurd h (hreplied _)
  | tombstone name principal policy nonce => exact absurd h (hreplied _)
  | scan name principal policy => cases h
  | replay receipt => cases h
  | restart => cases h

/-- **What records a receipt**: a commit or a tombstone, of a live table. -/
theorem eventOf_recorded {c : ReferenceCatalog} {cmd : Command} {r : Receipt}
    (h : eventOf c cmd = some (.recorded r)) : ∃ entry, Extends c entry r ∧
      ((∃ q, cmd = .commit q ∧ commitReceipt entry q = .ok r) ∨
        ∃ table principal policy nonce, cmd = .tombstone table principal policy nonce ∧
          tombstoneReceipt entry table principal policy nonce = .ok r) := by
  -- an event is read off the receipt of the reply
  have hreplied : ∀ {reply : Except Fault Outcome} {outcome : Outcome}, reply = .ok outcome →
      replied reply = some (.recorded r) → outcome.receipt = some r := by
    intro reply outcome hreply hr
    rw [hreply] at hr
    obtain ⟨found, hfound, heq⟩ := Option.map_eq_some_iff.mp hr
    cases heq
    exact hfound
  have hok : ∀ {reply : Except Fault Outcome}, replied reply = some (.recorded r) →
      ∃ outcome, reply = .ok outcome := by
    intro reply hr
    cases reply with
    | error e => cases hr
    | ok outcome => exact ⟨outcome, rfl⟩
  cases cmd with
  | create name principal => cases h
  | commit q =>
    rw [eventOf] at h
    split_ifs at h with hstored
    obtain ⟨_, hreply⟩ | ⟨entry, found, hextends, hfound, heq⟩ := commit_cases c q
    · obtain ⟨outcome, houtcome⟩ := hok h
      rcases hreply outcome houtcome with hnone | hsome
      · rw [hreplied houtcome h] at hnone
        cases hnone
      · rw [hsome] at hstored
        exact absurd rfl hstored
    · rw [heq] at h
      cases hreplied rfl h
      exact ⟨entry, hextends, .inl ⟨q, rfl, hfound⟩⟩
  | tombstone table principal policy nonce =>
    obtain ⟨_, hreply⟩ | ⟨entry, found, hextends, hfound, heq⟩ :=
      tombstone_cases c table principal policy nonce
    · obtain ⟨outcome, houtcome⟩ := hok h
      have hreceipt := hreplied houtcome h
      rw [hreply outcome houtcome] at hreceipt
      cases hreceipt
    · rw [eventOf, heq] at h
      cases hreplied rfl h
      exact ⟨entry, hextends, .inr ⟨table, principal, policy, nonce, rfl, hfound⟩⟩
  | scan name principal policy => cases h
  | replay receipt => cases h
  | restart => cases h

/-- **A commit is accepted** exactly of a live table that is still at the pointer it asserts, under
    a key that is free, if it is not oversized and its receipt can be made. -/
theorem exists_committed_iff {c : ReferenceCatalog} {q : CommitRequest} :
    (∃ r, eventOf c (.commit q) = some (.recorded r)) ↔
      ReferenceCatalog.badText [q.update, q.policy] = false ∧ c.stored q.idempotencyKey = none ∧
        ∃ entry, c.live q.table = some entry ∧ q.expectedMetadata = entry.metadata ∧
          (entry.snapshotId + 1).natAbs < 10 ^ 4300 ∧ Encodable q.policy := by
  constructor
  · intro h
    obtain ⟨r, hr⟩ := h
    obtain ⟨entry, hextends, ⟨q₀, heq, hcommit⟩ | ⟨_, _, _, _, heq, _⟩⟩ := eventOf_recorded hr
    case inr => cases heq
    cases heq
    obtain ⟨htable, -, hprevious, -⟩ := commitReceipt_eq_ok_iff.mp hcommit
    rw [eventOf] at hr
    split_ifs at hr with hstored
    refine ⟨?_, Option.not_isSome_iff_eq_none.mp hstored, entry, htable ▸ hextends.live,
      hprevious.symm.trans hextends.previous, exists_commitReceipt_iff.mp ⟨r, hcommit⟩⟩
    by_contra hbad
    rw [ReferenceCatalog.commit, if_pos (Bool.not_eq_false _ ▸ hbad)] at hr
    cases hr
  · intro h
    obtain ⟨hbad, hstored, entry, hlive, hmeta, hprints⟩ := h
    obtain ⟨r, hr⟩ := exists_commitReceipt_iff.mpr hprints
    refine ⟨r, ?_⟩
    have hreply : (c.commit q).1 = .ok (committed r) := by
      rw [ReferenceCatalog.commit, hbad, hstored, hlive]
      by_cases hkey : q.idempotencyKey = [] <;> simp [hmeta, hr, hkey]
    rw [eventOf, hstored, hreply]
    rfl

theorem eventOf_of_raises {c : ReferenceCatalog} {cmd : Command} {e : Fault}
    (h : (c.step cmd).1 = .error e) : eventOf c cmd = none := by
  have hreplied : ∀ {reply : Except Fault Outcome}, reply.map Answer.outcome = .error e →
      replied reply = none := by
    intro reply hreply
    cases reply with
    | error found => rfl
    | ok outcome => cases hreply
  cases cmd with
  | create table principal => cases h
  | commit q =>
    have hnone : replied (c.commit q).1 = none := hreplied h
    rw [eventOf, hnone]
    exact ite_self _
  | tombstone table principal policy nonce => exact hreplied h
  | scan table principal policy => rfl
  | replay receipt => rfl
  | restart => rfl

/-- The catalog changes by its events, so a fact about a run is one about the list of them. -/
def sourced : catalog.Sourced Event := ⟨eventOf, applied, step_eq_applied⟩

end Catalog

end CatalogProvenance

end AdversarialCognition
