import AdversarialCognition.Lib.Lines
import AdversarialCognition.Report.Bounded

/-!
# The comparisons of the book

`cases.py`, `adapters.py` and the gates of `report.py` of `catalog_provenance` and of
`capability_adversarial`. The two are one program over two corpora, and a `Benchmark` says which:
the names, the capabilities, the gates and the commands are looked up in it, and everything else
is said once.

## What is modelled

* The corpora, with every text of a case, and what the tests of the repository want of them
  (`Suite`).
* What comes of a command, from its timeout on. A timeout that is no integer is raised out of the
  comparison, as it is read before the `try`. What the rest of the handler catches becomes an
  entry with an error of at most 256 characters.
* The parse of a payload: the claims are cut down to the capabilities that there are, the rows
  have to cover the suite, and a row is looked up by the id of each case, in the order of the
  suite.
* The gates: a row that is supported and wrong counts under its gate.

## What is not

What a case runs is taken as given: the reference is any function from cases to verdicts. So is
what comes of the command of a system, and the order in which the systems are asked does not
matter, as none is told of another.

## The result

An adapter may print what it likes, and still no case is supported whose capability is not
claimed, and none is correct that is not supported. So every system is scored, or it has an error
of one line (`scored_executeExternal`). A gate has exactly the number of rows that trip it
(`hardGates_counted`).
-/

namespace AdversarialCognition.Comparison

open Py Py.Str Json

/-!
## The corpora

The two corpora, written out, and what is asked of a corpus. What is asked of them is decided on
the lists, once, and carried by the type from there on.
-/

/-- The two comparisons. -/
inductive Benchmark
  | catalogProvenance
  | capabilityAdversarial
  deriving DecidableEq, Repr

/-- `BENCHMARK` -/
def Benchmark.name : Benchmark → Str
  | .catalogProvenance => "CATALOG-PROVENANCE-v1"
  | .capabilityAdversarial => "CAPABILITY-ADVERSARIAL-v1"

/-- `ADAPTER_PROTOCOL` -/
def Benchmark.adapterProtocol : Benchmark → Str
  | .catalogProvenance => "catalog-provenance-adapter-v1"
  | .capabilityAdversarial => "capability-adversarial-adapter-v1"

/-- The version the reference is reported with. -/
def Benchmark.referenceVersion : Benchmark → Str
  | .catalogProvenance => "catalog-provenance-v1"
  | .capabilityAdversarial => "capability-adversarial-v1"

/-- `CAPABILITIES` -/
def Benchmark.capabilities : Benchmark → List Str
  | .catalogProvenance => [
      "commit", "compare-and-swap", "idempotent-replay", "durable-audit", "atomic-outbox",
      "replayable-proof", "governed-scan-proof", "receipt-chain", "tombstone-proof",
      "hash-only-evidence", "lineage-evidence"]
  | .capabilityAdversarial => [
      "mint-capability", "attenuation-monotonic", "resource-instance-binding", "revocation",
      "lease-expiry", "reveal-gating", "declassify-gating", "deny-by-default-tool",
      "confused-deputy-resistance", "audit-on-decision", "wire-integrity"]

/-- `GATES` -/
def Benchmark.gates : Benchmark → List Str
  | .catalogProvenance => [
      "lost_update_accepted", "duplicate_commit_applied", "evidence_lost", "forged_proof_accepted",
      "unauthorized_scan_disclosed", "plaintext_in_evidence", "non_deterministic_receipt"]
  | .capabilityAdversarial => [
      "unauthorized_mint", "forged_capability_accepted", "permission_widened", "lease_extended",
      "cross_resource_reveal", "revoked_capability_honored", "label_leaked",
      "ambient_tool_call_executed", "confused_deputy_exploited", "injected_field_accepted"]

/-- `EXTERNAL_CATALOGS` and `EXTERNAL_SYSTEMS`: each system with the variable that has its
    command. -/
def Benchmark.externals : Benchmark → List (Str × Str)
  | .catalogProvenance => [
      ("lakecat", "CATALOG_PROVENANCE_LAKECAT_CMD"),
      ("polaris", "CATALOG_PROVENANCE_POLARIS_CMD"),
      ("gravitino", "CATALOG_PROVENANCE_GRAVITINO_CMD"),
      ("nessie", "CATALOG_PROVENANCE_NESSIE_CMD")]
  | .capabilityAdversarial => [
      ("typesec", "CAPABILITY_ADVERSARIAL_TYPESEC_CMD"),
      ("ucan", "CAPABILITY_ADVERSARIAL_UCAN_CMD"),
      ("biscuit", "CAPABILITY_ADVERSARIAL_BISCUIT_CMD"),
      ("macaroon", "CAPABILITY_ADVERSARIAL_MACAROON_CMD"),
      ("jwt", "CAPABILITY_ADVERSARIAL_JWT_CMD"),
      ("opa", "CAPABILITY_ADVERSARIAL_OPA_CMD"),
      ("cedar", "CAPABILITY_ADVERSARIAL_CEDAR_CMD"),
      ("spicedb", "CAPABILITY_ADVERSARIAL_SPICEDB_CMD"),
      ("openfga", "CAPABILITY_ADVERSARIAL_OPENFGA_CMD")]

/-- The key a report has its entries under. -/
def Benchmark.entriesKey : Benchmark → Str
  | .catalogProvenance => "catalogs"
  | .capabilityAdversarial => "systems"

/-- The key an entry has its name under. -/
def Benchmark.entryKey : Benchmark → Str
  | .catalogProvenance => "catalog"
  | .capabilityAdversarial => "system"

/-- What `assert_bounded` says. -/
def Benchmark.unboundedText : Benchmark → Str
  | .catalogProvenance => "catalog-provenance report contains an unbounded string"
  | .capabilityAdversarial => "capability-adversarial report contains an unbounded string"

/-- A `Case`, without what it runs. -/
structure Case where
  caseId : Str
  category : Str
  capability : Str
  description : Str
  gate : Str := []
  deriving DecidableEq

/-- A corpus as its tests want it: every case once, under a capability and a gate there is. The
    texts can be encoded, and the ids fit into a report. -/
structure Suite (b : Benchmark) where
  cases : List Case
  distinct : (cases.map (·.caseId)).Nodup
  known : ∀ case ∈ cases, case.capability ∈ b.capabilities
  guarded : ∀ case ∈ cases, case.gate ≠ [] → case.gate ∈ b.gates
  short : ∀ case ∈ cases, Report.boundedText case.caseId = true
  scalar : ∀ case ∈ cases, Encodable case.caseId ∧ Encodable case.category ∧
    Encodable case.description

/-- `cases()` of `catalog_provenance` -/
def catalogCases : List Case := [
  ⟨"commit-fresh", "commit", "commit",
    "a fresh commit advances the pointer and yields a receipt", []⟩,
  ⟨"cas-stale-rejected", "concurrency", "compare-and-swap",
    "a commit asserting stale metadata is rejected", "lost_update_accepted"⟩,
  ⟨"cas-concurrent", "concurrency", "compare-and-swap",
    "two writers on one head: exactly one wins", "lost_update_accepted"⟩,
  ⟨"idempotent-retry", "idempotency", "idempotent-replay",
    "a retried commit returns the stored receipt, no double-apply", "duplicate_commit_applied"⟩,
  ⟨"idempotent-across-restart", "idempotency", "idempotent-replay",
    "idempotency survives a restart", "duplicate_commit_applied"⟩,
  ⟨"audit-durable", "audit", "durable-audit",
    "an accepted commit yields a durable audit event", "evidence_lost"⟩,
  ⟨"outbox-atomic-present", "outbox", "atomic-outbox",
    "an accepted commit stages an outbox event atomically", "evidence_lost"⟩,
  ⟨"outbox-absent-on-reject", "outbox", "atomic-outbox",
    "a rejected commit emits no outbox event", "evidence_lost"⟩,
  ⟨"replay-verifies", "proof", "replayable-proof",
    "the commit receipt verifies offline", "forged_proof_accepted"⟩,
  ⟨"replay-forged-rejected", "proof", "replayable-proof",
    "a tampered receipt fails verification", "forged_proof_accepted"⟩,
  ⟨"governed-scan-receipt", "governed-read", "governed-scan-proof",
    "a scan carries a policy-bound authorization receipt", "unauthorized_scan_disclosed"⟩,
  ⟨"governed-scan-mismatch-rejected", "governed-read", "governed-scan-proof",
    "a scan receipt does not verify against a different policy", "unauthorized_scan_disclosed"⟩,
  ⟨"receipt-chain-linked", "chain", "receipt-chain",
    "a commit receipt links to its predecessor", []⟩,
  ⟨"tombstone-covered", "tombstone", "tombstone-proof",
    "a drop is covered by a tombstone receipt", []⟩,
  ⟨"hash-only-audit", "redaction", "hash-only-evidence",
    "evidence carries digests, never raw secrets", "plaintext_in_evidence"⟩,
  ⟨"lineage-emitted", "lineage", "lineage-evidence",
    "an accepted commit emits a lineage event", "evidence_lost"⟩,
  ⟨"restart-reproducible", "proof", "replayable-proof",
    "the receipt still verifies after a restart", "non_deterministic_receipt"⟩]

/-- `cases()` of `capability_adversarial` -/
def capabilityCases : List Case := [
  ⟨"mint-authorized", "mint", "mint-capability",
    "an authorized subject mints a capability, with audit", []⟩,
  ⟨"mint-denied-by-policy", "mint", "mint-capability",
    "a policy-denied mint yields no capability", "unauthorized_mint"⟩,
  ⟨"forged-capability-rejected", "mint", "mint-capability",
    "a capability with a tampered seal is refused", "forged_capability_accepted"⟩,
  ⟨"attenuate-narrows", "attenuation", "attenuation-monotonic",
    "attenuation drops grants and shortens the lease", []⟩,
  ⟨"widen-permission-rejected", "attenuation", "attenuation-monotonic",
    "attenuation cannot widen a permission", "permission_widened"⟩,
  ⟨"extend-lease-rejected", "attenuation", "attenuation-monotonic",
    "attenuation cannot extend a lease", "lease_extended"⟩,
  ⟨"resource-instance-bound", "binding", "resource-instance-binding",
    "a capability reveals its bound resource instance", []⟩,
  ⟨"cross-resource-rejected", "binding", "resource-instance-binding",
    "a capability for one instance cannot act on another", "cross_resource_reveal"⟩,
  ⟨"revoke-by-id", "revocation", "revocation",
    "a capability revoked by id stops authorizing", "revoked_capability_honored"⟩,
  ⟨"revoke-all-epoch", "revocation", "revocation",
    "revoke_all invalidates outstanding capabilities mid-lease", "revoked_capability_honored"⟩,
  ⟨"lease-expiry-enforced", "expiry", "lease-expiry",
    "a capability past its lease is inactive", "revoked_capability_honored"⟩,
  ⟨"reveal-authorized", "reveal", "reveal-gating",
    "a matching read capability reveals the cleartext", []⟩,
  ⟨"reveal-below-clearance-redacted", "reveal", "reveal-gating",
    "a read below clearance is redacted, not disclosed", "label_leaked"⟩,
  ⟨"declassify-requires-grant", "declassify", "declassify-gating",
    "lowering a label needs an explicit declassify grant", "label_leaked"⟩,
  ⟨"ambient-tool-call-denied", "tool", "deny-by-default-tool",
    "a tool-call with no capability is refused", "ambient_tool_call_executed"⟩,
  ⟨"confused-deputy-rejected", "tool", "confused-deputy-resistance",
    "authority for one operation cannot drive another", "confused_deputy_exploited"⟩,
  ⟨"audit-on-every-decision", "audit", "audit-on-decision",
    "both allow and deny leave a durable audit event", []⟩,
  ⟨"wire-injected-field-rejected", "wire", "wire-integrity",
    "a request with a smuggled field is refused", "injected_field_accepted"⟩]

/-- The corpus. -/
def Benchmark.cases : Benchmark → List Case
  | .catalogProvenance => catalogCases
  | .capabilityAdversarial => capabilityCases

theorem distinct_cases (b : Benchmark) : (b.cases.map (·.caseId)).Nodup := by
  cases b with
  | catalogProvenance => simp [Benchmark.cases, catalogCases]
  | capabilityAdversarial => simp [Benchmark.cases, capabilityCases]

theorem known_cases (b : Benchmark) : ∀ case ∈ b.cases, case.capability ∈ b.capabilities := by
  cases b with
  | catalogProvenance => simp [Benchmark.cases, catalogCases, Benchmark.capabilities]
  | capabilityAdversarial => simp [Benchmark.cases, capabilityCases, Benchmark.capabilities]

theorem guarded_cases (b : Benchmark) : ∀ case ∈ b.cases, case.gate ≠ [] → case.gate ∈ b.gates := by
  cases b with
  | catalogProvenance => simp [Benchmark.cases, catalogCases, Benchmark.gates]
  | capabilityAdversarial => simp [Benchmark.cases, capabilityCases, Benchmark.gates]

theorem short_cases (b : Benchmark) :
    ∀ case ∈ b.cases, Report.boundedText case.caseId = true := by
  -- the characters of each literal are read off it, one literal after another
  cases b with
  | catalogProvenance =>
    repeat' first
      | exact List.forall_mem_nil _
      | refine List.forall_mem_cons.2 ⟨Report.boundedText_ofList (by decide) (by decide), ?_⟩
  | capabilityAdversarial =>
    repeat' first
      | exact List.forall_mem_nil _
      | refine List.forall_mem_cons.2 ⟨Report.boundedText_ofList (by decide) (by decide), ?_⟩

theorem scalar_cases (b : Benchmark) : ∀ case ∈ b.cases, Encodable case.caseId ∧
    Encodable case.category ∧ Encodable case.description := by
  cases b with
  | catalogProvenance => simp [Benchmark.cases, catalogCases, encodable_lit]
  | capabilityAdversarial => simp [Benchmark.cases, capabilityCases, encodable_lit]

/-- The corpora are as their tests want them. -/
def corpus (b : Benchmark) : Suite b where
  cases := b.cases
  distinct := distinct_cases b
  known := known_cases b
  guarded := guarded_cases b
  short := short_cases b
  scalar := scalar_cases b

/-!
## Gates and counts

A gate is a name with a count. A row is counted under the gate of its case if it is supported and
wrong.
-/

/-- A row of `_case_row`. -/
structure Row where
  caseId : Str
  capability : Str
  gate : Str
  supported : Bool
  correct : Bool
  deriving DecidableEq

/-- `_case_row` -/
def caseRow (case : Case) (supported correct : Bool) : Row where
  caseId := case.caseId
  capability := case.capability
  gate := case.gate
  supported := supported
  correct := correct

/-- The row is counted under its gate. -/
def Row.Violates (row : Row) : Prop := row.gate ≠ [] ∧ row.supported = true ∧ row.correct = false

instance (row : Row) : Decidable row.Violates := inferInstanceAs (Decidable (_ ∧ _ ∧ _))

section Gates

variable [Runtime]

/-- One pass of the loop of `hard_gates`. A gate there is not would be a `KeyError`. -/
def countRow (gates : Dict Str ℕ) (row : Row) : Except Raised (Dict Str ℕ) :=
  if row.Violates then
    match gates.get? row.gate with
    | some n => .ok (gates.set row.gate (n + 1))
    | none => .error ⟨.keyError, row.gate.repr⟩
  else .ok gates

/-- `{name: 0 for name in GATES}` -/
def zeroGates (b : Benchmark) : Dict Str ℕ := b.gates.foldl (fun gates name => gates.set name 0) .empty

/-- `hard_gates` -/
def hardGates (b : Benchmark) (rows : List Row) : Except Raised (Dict Str ℕ) :=
  rows.foldlM countRow (zeroGates b)

end Gates

/-- `any(gates.values())` -/
def tripped (gates : Dict Str ℕ) : Bool := gates.values.any (· ≠ 0)

/-- `summarize` -/
structure Summary where
  supported : ℕ
  correct : ℕ
  unsupported : ℕ
  accuracy : Str

/-- `summarize`. Without a supported case the accuracy is 0.0. -/
def summarize [Numerics] (rows : List Row) : Summary :=
  let supported := (rows.filter (·.supported)).length
  let passed := ((rows.filter (·.supported)).filter (·.correct)).length
  { supported := supported
    correct := passed
    unsupported := rows.length - supported
    accuracy := if supported ≠ 0 then Numerics.ratio passed supported else lit "0.0" }

/-!
## The systems

The reference is run, and is credited with every capability. Any other system is a command, and
what comes of it is parsed and scored, or becomes an error.
-/

/-- What is reported of a system that was executed. -/
structure Executed where
  version : Str
  capabilities : List Str
  gates : Dict Str ℕ
  rows : List Row

/-- An entry of the report. -/
inductive Entry
  | unavailable (system commandVariable : Str)
  | error (system message : Str)
  | executed (system : Str) (run : Executed)

/-- The system that the entry is about. -/
def Entry.system : Entry → Str
  | .unavailable system _ => system
  | .error system _ => system
  | .executed system _ => system

section Execute

variable [Runtime]

/-- `_finish`. The summary is a function of the rows, and put beside them in `toJson`. -/
def finish (b : Benchmark) (system version : Str) (capabilities : List Str) (rows : List Row) :
    Except Raised Entry := do
  let gates ← hardGates b rows
  return .executed system
    { version := version, capabilities := Report.sorted capabilities, gates := gates, rows := rows }

/-- `run_reference`; `reference` is `run_case`. -/
def runReference (b : Benchmark) (suite : List Case) (reference : Case → Bool) : Except Raised Entry :=
  finish b "reference" b.referenceVersion b.capabilities
    (suite.map fun case => caseRow case true (reference case))

/-- `str(c)` of a claim, if it is in `CAPABILITIES`. -/
def knownCapability? (b : Benchmark) : Json → Option Str
  | .str s => if s ∈ b.capabilities then some s else none
  | _ => none

/-- `set(by_id) == {c.case_id for c in suite}` -/
def coversSuite (table : Report.RowTable) (suite : List Case) : Bool :=
  !table.foreign && table.byId.items.all (fun item => suite.any (·.caseId == item.1)) &&
    suite.all fun case => (table.byId.get? case.caseId).isSome

/-- The row of a case, as it is scored: it takes a claim of the capability to support it. -/
def readRow (table : Report.RowTable) (capabilities : List Str) (case : Case) : Except Raised Row :=
  match table.byId.get? case.caseId with
  | some row => do
      let supported ← row.getOr "supported" (.bool false)
      let correct ← row.getOr "correct" (.bool false)
      let supported := supported.truthy && decide (case.capability ∈ capabilities)
      return caseRow case supported (supported && correct.truthy)
  | none => .error ⟨.keyError, case.caseId.repr⟩

/-- What `_parse` returns. -/
structure Found where
  version : Str
  capabilities : List Str
  rows : List Row

variable [Numerics]

/-- `_parse` -/
def parsePayload (b : Benchmark) (payload : Str) (suite : List Case) : Except Raised Found := do
  let parsed ← Json.parse payload
  let version ← parsed.getOr "adapter_version" (.str b.adapterProtocol)
  let claims ← (← parsed.getOr "capabilities" (.list [])).items
  let capabilities := claims.filterMap (knownCapability? b)
  let table ← Report.rowTable (← (← parsed.subscript "cases").items)
  if !coversSuite table suite then
    throw ⟨.valueError, "adapter did not report every case exactly once"⟩
  let rows ← suite.mapM (readRow table capabilities)
  return { version := version.toStr.take 64, capabilities := capabilities, rows := rows }

/-- What comes of a command: none is configured; one is, and the timeout variable holds what is no
    integer, which `int` says before there is anything to catch it; it prints and exits with 0; it
    exits with another status; or it cannot be run to its end, with the text of the exception. -/
inductive CommandRun
  | unconfigured
  | badTimeout (error : Raised)
  | printed (stdout : Str)
  | exited (text stderr : Str)
  | raised (text : Str)

/-- `MAX_ERROR_CHARS` -/
def maxErrorChars : ℕ := 256

/-- The last line of what the adapter complained of, or else the exit status. -/
def exitDetail (text stderr : Str) : Str := (splitlines stderr.strip).getLast?.getD text

/-- `execute_external`, given what came of the command. -/
def executeExternal (b : Benchmark) (system commandVariable : Str) (suite : List Case) :
    CommandRun → Except Raised Entry
  | .unconfigured => .ok (.unavailable system commandVariable)
  | .badTimeout error => .error error
  | .exited text stderr => .ok (.error system ((exitDetail text stderr).take maxErrorChars))
  | .raised text => .ok (.error system (text.take maxErrorChars))
  | .printed stdout =>
      match parsePayload b stdout suite with
      | .error e => .ok (.error system (e.text.take maxErrorChars))
      | .ok found => finish b system found.version found.capabilities found.rows

/-- `known` of `execute_catalogs` and `execute_systems`. -/
def Benchmark.systems (b : Benchmark) : List Str := lit "reference" :: b.externals.map Prod.fst

/-- `execute_catalogs` and `execute_systems`, given what comes of each command. -/
def executeSystems (b : Benchmark) (selected : List Str) (suite : List Case) (runs : Str → CommandRun)
    (reference : Case → Bool) : Except Raised (List Entry) := do
  let unknown := selected.dedup.filter (· ∉ b.systems)
  if unknown ≠ [] then
    throw ⟨.valueError, lit "unknown " ++ b.entriesKey ++ lit ": " ++
      (strs (Report.sorted unknown)).repr⟩
  let first ← if lit "reference" ∈ selected then (do return [← runReference b suite reference])
    else pure []
  let others ← (b.externals.filter fun external => external.1 ∈ selected).mapM fun external =>
    executeExternal b external.1 external.2 suite (runs external.1)
  return first ++ others

end Execute

/-!
## What a gate counts

The loop over the rows raises nothing, as every gate of a case is a gate that there is, and it
leaves under each the number of rows that trip it.
-/

section Counts

variable {b : Benchmark} {rows : List Row}

/-- The row is counted under this gate. -/
def Row.Trips (name : Str) (row : Row) : Prop := row.Violates ∧ row.gate = name

instance (name : Str) (row : Row) : Decidable (row.Trips name) := inferInstanceAs (Decidable (_ ∧ _))

/-- The gates of a benchmark, with these counts and no others. -/
def Counted (b : Benchmark) (gates : Dict Str ℕ) (counts : Str → ℕ) : Prop :=
  ∀ name, gates.get? name = if name ∈ b.gates then some (counts name) else none

theorem get?_foldl_set (names : List Str) (gates : Dict Str ℕ) (name : Str) :
    (names.foldl (fun gates name => gates.set name 0) gates).get? name =
      if name ∈ names then some 0 else gates.get? name := by
  induction names generalizing gates with
  | nil => rfl
  | cons first names ih =>
    rw [List.foldl_cons, ih, Dict.get?_set]
    by_cases hlater : name ∈ names
    · simp [hlater]
    · simp [hlater]

theorem counted_zeroGates (b : Benchmark) : Counted b (zeroGates b) fun _ => 0 := by
  intro name
  rw [zeroGates, get?_foldl_set]
  rfl

variable [Runtime]

theorem countRow_counted {gates : Dict Str ℕ} {counts : Str → ℕ} {row : Row}
    (h : Counted b gates counts) (hrow : row.gate ≠ [] → row.gate ∈ b.gates) :
    ∃ next, countRow gates row = .ok next ∧
      Counted b next fun name => counts name + if row.Trips name then 1 else 0 := by
  by_cases hviolates : row.Violates
  · have hmem := hrow hviolates.1
    have hget := h row.gate
    rw [if_pos hmem] at hget
    refine ⟨gates.set row.gate (counts row.gate + 1), ?_, fun name => ?_⟩
    · rw [countRow, if_pos hviolates, hget]
    · rw [Dict.get?_set]
      dsimp only
      by_cases hname : name = row.gate
      · subst hname
        rw [if_pos rfl, if_pos hmem, if_pos (show row.Trips row.gate from ⟨hviolates, rfl⟩)]
      · rw [if_neg hname, h name, if_neg (fun htrips : row.Trips name => hname htrips.2.symm),
          Nat.add_zero]
  · refine ⟨gates, by rw [countRow, if_neg hviolates], fun name => ?_⟩
    dsimp only
    rw [h name, if_neg (fun htrips : row.Trips name => hviolates htrips.1), Nat.add_zero]

theorem foldlM_countRow {gates : Dict Str ℕ} {counts : Str → ℕ} (h : Counted b gates counts)
    (hrows : ∀ row ∈ rows, row.gate ≠ [] → row.gate ∈ b.gates) :
    ∃ final, rows.foldlM countRow gates = .ok final ∧
      Counted b final fun name => counts name + rows.countP fun row => row.Trips name := by
  induction rows generalizing gates counts with
  | nil => exact ⟨gates, rfl, h⟩
  | cons row rows ih =>
    obtain ⟨hrow, hlater⟩ := List.forall_mem_cons.1 hrows
    obtain ⟨next, hnext, hcounted⟩ := countRow_counted h hrow
    obtain ⟨final, hfinal, hcounts⟩ := ih hcounted hlater
    refine ⟨final, ?_, fun name => ?_⟩
    · rw [List.foldlM_cons, hnext]
      exact hfinal
    · rw [hcounts name]
      simp only [List.countP_cons, decide_eq_true_eq, Nat.add_assoc, Nat.add_comm (List.countP _ _)]

/-- **A gate counts the rows that trip it**, and no row is under a gate there is not. -/
theorem hardGates_counted (hrows : ∀ row ∈ rows, row.gate ≠ [] → row.gate ∈ b.gates) :
    ∃ gates, hardGates b rows = .ok gates ∧
      Counted b gates fun name => rows.countP fun row => row.Trips name := by
  obtain ⟨gates, hgates, hcounted⟩ := foldlM_countRow (counted_zeroGates b) hrows
  refine ⟨gates, hgates, fun name => ?_⟩
  rw [hcounted name]
  simp only [Nat.zero_add]

omit [Runtime] in
/-- Some gate has counted something if some row is a violation. -/
theorem tripped_iff {gates : Dict Str ℕ}
    (h : Counted b gates fun name => rows.countP fun row => row.Trips name)
    (hrows : ∀ row ∈ rows, row.gate ≠ [] → row.gate ∈ b.gates) :
    tripped gates = true ↔ ∃ row ∈ rows, row.Violates := by
  simp only [tripped, List.any_eq_true, decide_eq_true_iff, Dict.mem_values_iff]
  constructor
  · intro hsome
    obtain ⟨n, ⟨name, hget⟩, hne⟩ := hsome
    rw [h name] at hget
    split at hget
    · rw [← Option.some.inj hget] at hne
      obtain ⟨row, hmem, htrips⟩ := List.countP_pos_iff.1 (Nat.pos_of_ne_zero hne)
      exact ⟨row, hmem, (of_decide_eq_true htrips).1⟩
    · cases hget
  · intro hsome
    obtain ⟨row, hmem, hviolates⟩ := hsome
    have hget := h row.gate
    rw [if_pos (hrows row hmem hviolates.1)] at hget
    refine ⟨_, ⟨row.gate, hget⟩, Nat.pos_iff_ne_zero.1 (List.countP_pos_iff.2 ⟨row, hmem, ?_⟩)⟩
    exact decide_eq_true ⟨hviolates, rfl⟩

end Counts

/-!
## What a payload is scored as

A row is credited within the claims, whatever it says of itself, so the score of a system needs
nothing from its adapter but that the payload parses. What does not parse raises with a text on
one line.
-/

/-- What a case is credited with, under these claims. -/
structure Credited (claims : List Str) (case : Case) (row : Row) : Prop where
  caseId : row.caseId = case.caseId
  capability : row.capability = case.capability
  gate : row.gate = case.gate
  claimed : row.supported = true → case.capability ∈ claims
  supported : row.correct = true → row.supported = true

/-- What `_case_row` makes of a case is credited to it, within the claims. -/
theorem credited_caseRow {claims : List Str} {case : Case} {supported correct : Bool}
    (hclaimed : supported = true → case.capability ∈ claims)
    (hsupported : correct = true → supported = true) :
    Credited claims case (caseRow case supported correct) :=
  ⟨rfl, rfl, rfl, hclaimed, hsupported⟩

/-- **How a system is scored**: every case once, none beyond its claims, and each gate by the
    supported cases under it that it got wrong. -/
structure Scored {b : Benchmark} (suite : Suite b) (run : Executed) : Prop where
  rows : List.Forall₂ (Credited run.capabilities) suite.cases run.rows
  known : ∀ capability ∈ run.capabilities, capability ∈ b.capabilities
  gates : Counted b run.gates fun name => run.rows.countP fun row => row.Trips name
  result : tripped run.gates = true ↔ ∃ row ∈ run.rows, row.Violates

section Scored

variable {b : Benchmark} {suite : Suite b} {claims : List Str} {rows : List Row}

/-- A credited row is under a gate that there is, if under one. -/
theorem mem_gates_of_credited (h : List.Forall₂ (Credited claims) suite.cases rows) :
    ∀ row ∈ rows, row.gate ≠ [] → row.gate ∈ b.gates := by
  refine Py.forall_mem_of_forall₂ h fun case hcase row hrow hgate => ?_
  rw [hrow.gate] at hgate ⊢
  exact suite.guarded case hcase hgate

variable [Runtime]

/-- Rows that are credited are scored, and `_finish` raises nothing. -/
theorem scored_finish (h : List.Forall₂ (Credited claims) suite.cases rows)
    (hknown : ∀ capability ∈ claims, capability ∈ b.capabilities) (system version : Str) :
    ∃ run, finish b system version claims rows = .ok (.executed system run) ∧
      run.version = version ∧ run.rows = rows ∧ run.capabilities = Report.sorted claims ∧
        Scored suite run := by
  have hrows := mem_gates_of_credited h
  obtain ⟨gates, hgates, hcounted⟩ := hardGates_counted hrows
  refine ⟨⟨version, Report.sorted claims, gates, rows⟩, ?_, rfl, rfl, rfl, ?_, ?_, hcounted,
    tripped_iff hcounted hrows⟩
  · rw [finish, hgates]
    rfl
  · refine h.imp fun case row hrow => { hrow with claimed := fun hsupported => ?_ }
    exact Report.mem_sorted.2 (hrow.claimed hsupported)
  · intro capability hmem
    exact hknown capability (Report.mem_sorted.1 hmem)

omit [Runtime] in
theorem credited_reference (suite : Suite b) (reference : Case → Bool) :
    List.Forall₂ (Credited b.capabilities) suite.cases
      (suite.cases.map fun case => caseRow case true (reference case)) := by
  rw [List.forall₂_map_right_iff, List.forall₂_same]
  intro case hcase
  exact credited_caseRow (fun _ => suite.known case hcase) fun _ => rfl

/-- A row that is read is credited, whatever it says: what is not claimed is not supported. -/
theorem credited_readRow {table : Report.RowTable} {case : Case} {row : Row}
    (h : readRow table claims case = .ok row) : Credited claims case row := by
  unfold readRow at h
  split at h
  · obtain ⟨supported, -, h⟩ := bind_eq_ok_iff.1 h
    obtain ⟨correct, -, h⟩ := bind_eq_ok_iff.1 h
    cases h
    refine credited_caseRow (fun hsupported => ?_) fun hcorrect => ?_
    · exact of_decide_eq_true (Bool.and_eq_true_iff.1 hsupported).2
    · exact (Bool.and_eq_true_iff.1 hcorrect).1
  · cases h

omit [Runtime] in
/-- A claim is counted only as the string it is. -/
theorem mem_of_knownCapability? {value : Json} {capability : Str}
    (h : knownCapability? b value = some capability) :
    value = .str capability ∧ capability ∈ b.capabilities := by
  unfold knownCapability? at h
  split at h
  · split at h
    · rename_i hmem
      cases h
      exact ⟨rfl, hmem⟩
    · cases h
  · cases h

variable [Numerics]

/-- What a payload is read as: a row for every case, credited, and no claim beyond the
    capabilities. -/
theorem parsePayload_cases {payload : Str} {found : Found}
    (h : parsePayload b payload suite.cases = .ok found) :
    List.Forall₂ (Credited found.capabilities) suite.cases found.rows ∧
      (∀ capability ∈ found.capabilities, capability ∈ b.capabilities) ∧
      ∃ version : Str, found.version = version.take 64 := by
  obtain ⟨parsed, -, h⟩ := bind_eq_ok_iff.1 h
  obtain ⟨version, -, h⟩ := bind_eq_ok_iff.1 h
  obtain ⟨value, -, h⟩ := bind_eq_ok_iff.1 h
  obtain ⟨claims, -, h⟩ := bind_eq_ok_iff.1 h
  obtain ⟨cases, -, h⟩ := bind_eq_ok_iff.1 h
  obtain ⟨items, -, h⟩ := bind_eq_ok_iff.1 h
  obtain ⟨table, -, h⟩ := bind_eq_ok_iff.1 h
  obtain ⟨-, h⟩ := ite_throw_eq_ok_iff.1 h
  obtain ⟨rows, hrows, h⟩ := bind_eq_ok_iff.1 h
  cases h
  refine ⟨(forall₂_of_mapM hrows).imp fun _ _ => credited_readRow, fun capability hmem => ?_, _, rfl⟩
  obtain ⟨value, -, hvalue⟩ := List.mem_filterMap.1 hmem
  exact (mem_of_knownCapability? hvalue).2

omit [Numerics] in
theorem raises_readRow (table : Report.RowTable) (claims : List Str) (case : Case) :
    Raises PlainError (readRow table claims case) := by
  unfold readRow
  split
  · exact (raises_getOr _ _ _).bind fun _ => (raises_getOr _ _ _).bind fun _ => raises_ok _
  · exact raises_error (oneLine_repr _)

theorem raises_parsePayload (b : Benchmark) (payload : Str) (suite : List Case) :
    Raises PlainError (parsePayload b payload suite) := by
  refine (raises_parse payload).bind fun parsed => (raises_getOr _ _ _).bind fun version =>
    (raises_getOr _ _ _).bind fun value => (raises_items _).bind fun claims =>
      (raises_subscript _ _).bind fun cases => (raises_items _).bind fun items =>
        (Report.raises_rowTable items).bind fun table => raises_ite (raises_literal _ (by decide)) ?_
  exact (raises_mapM (raises_readRow table _) suite).bind fun rows => raises_ok _

/-- **Whatever an adapter prints, its system is scored or it has an error of one line.** It is
    credited with no case whose capability it does not claim, and claims none there is not. All
    that the payload decides is which of its claims are kept and what each row says within them. -/
theorem scored_executeExternal (suite : Suite b) (system commandVariable payload : Str) :
    (∃ message, executeExternal b system commandVariable suite.cases (.printed payload) =
        .ok (.error system message) ∧ OneLine message ∧ message.length ≤ maxErrorChars) ∨
      ∃ run, executeExternal b system commandVariable suite.cases (.printed payload) =
        .ok (.executed system run) ∧ Scored suite run ∧ run.version.length ≤ 64 := by
  cases hparse : parsePayload b payload suite.cases with
  | error e =>
    refine .inl ⟨e.text.take maxErrorChars, by rw [executeExternal, hparse], ?_,
      List.length_take_le _ _⟩
    have hplain : OneLine e.text := raises_parsePayload b payload suite.cases e hparse
    exact hplain.take _
  | ok found =>
    obtain ⟨hcredited, hknown, version, hversion⟩ := parsePayload_cases hparse
    obtain ⟨run, hrun, hsame, -, -, hscored⟩ :=
      scored_finish hcredited hknown system found.version
    refine .inr ⟨run, by rw [executeExternal, hparse]; exact hrun, hscored, ?_⟩
    rw [hsame, hversion]
    exact List.length_take_le _ _

end Scored

end AdversarialCognition.Comparison
