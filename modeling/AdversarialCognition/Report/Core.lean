import AdversarialCognition.Cases
import AdversarialCognition.Lib.Untyped

/-!
# What is reported of a system

`CaseOutcome` and `SystemReport` of `adversarial_cognition/adapters.py`, and the entry a system
has in the report. A float is kept as the text `repr` gives it, as in a JSON value: a report
computes nothing of floats but ratios, roundings and percentiles, each of them taken as given
where it comes up.

## Values that carry their form

An attestation that has been parsed has the required keys and no others, in their order, and
`HarnessBlock` has that as a field. So what is printed of one needs no check for a missing key,
and `Report/Attestation.lean` none for an additional one.

A case of the suite has more fields than the drivers look at. `SuiteCase` adds the two that are
reported; the scenario of a case and the words that describe it to a reader stay out.
-/

namespace AdversarialCognition.Report

open Py Py.Str

/-- `Case`, without its scenario. -/
structure SuiteCase extends Case where
  category : Str
  description : Str

/-- What a system did in a case, and how it was scored. -/
structure CaseOutcome where
  caseId : Str
  category : Str
  correct : Bool
  allowed : Bool
  returnedIds : List Str
  receipt : Str
  latencyUs : Str
  supported : Bool := true

/-- `HARNESS_KEYS` -/
def harnessKeys : List String :=
  ["model", "seed", "temperature", "num_ctx", "max_turns", "prompt_digest", "tool_contract"]

/-- A harness attestation, as it is kept: every required key and no other. -/
structure HarnessBlock where
  items : List (Str × Json)
  keys : items.map Prod.fst = harnessKeys.map lit

/-- What became of a system: it was run, it is not configured, or running it failed. -/
inductive Status
  | executed
  | unavailable
  | error
  deriving DecidableEq, Repr

/-- As it is printed. -/
def Status.text : Status → Str
  | .executed => "executed"
  | .unavailable => "unavailable"
  | .error => "error"

/-- `SystemReport`. A system that was not run has no outcomes, and the fields that say why. -/
structure SystemReport where
  system : Str
  adapterVersion : Str
  status : Status
  missingConfiguration : List Str := []
  error : Str := []
  interface : Str := "direct-api"
  outcomes : List CaseOutcome := []
  harness : Option HarnessBlock := none

/-- `ADAPTER_PROTOCOL` -/
def adapterProtocol : Str := "marciana-adversarial-adapter-v1"

/-- `MAX_ERROR_CHARS` -/
def maxErrorChars : ℕ := 256

end AdversarialCognition.Report
