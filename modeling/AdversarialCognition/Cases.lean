import AdversarialCognition.Backend.Core
import AdversarialCognition.Lib.Printing
import Mathlib.Data.List.TakeDrop

/-!
# Benchmark cases

A case is a scenario, named by the case id, and an expectation of its outcome. Three evaluators
judge outcomes: `run_case` of `adversarial_cognition/cases.py` for the reference, and an
`evaluate` in each of the two drivers. They are written out three times with one body,
`meetsExpectation`, which `meetsExpectation_iff` reads off as a proposition.

## The scenario and the case

The expectation comes with the request, and is whatever the request says. The scenarios are fixed:
eighteen of them, each under its id, and a case with another id has none. So the laws about the
drivers speak of a case and a scenario side by side, and assume nothing of the one that the other
would promise. `Attainable` is what a case has to be in order that anything can meet it at all; it
is decided on the case, and is needed where a law says that something is *exactly* so.

What the drivers have in common besides is here as well: the capabilities, of which three are
about authorization, the principals, and the secret that the negative probe presents.
-/

namespace AdversarialCognition

open Py Py.Str

/-- `CAPABILITIES` -/
inductive Capability
  | retrieval
  | temporal
  | supersession
  | abstention
  | isolation
  | clearance
  | purpose
  | provenance
  | replayProtection
  | idempotency
  | forget
  | derivedTracking
  | persistence
  deriving DecidableEq, Repr

/-- `AUTHORIZATION_CAPABILITIES`, of either driver. -/
def authorizationCapabilities : Finset Capability := {.isolation, .clearance, .purpose}

/-- `PRINCIPALS`, of either driver. -/
def driverPrincipals : List Str :=
  [lit "operator", lit "analyst", lit "outsider", lit "advertiser"]

/-- What a driver reports of a system's authorization. -/
inductive AuthorizationCheck
  | notApplicable
  | passed
  | failedNegativeProbe
  | strippedUnauthenticated
  deriving DecidableEq, Repr

/-- The secret the negative-credential probe of either driver presents for the operator: the right
    one with its last character replaced, always by the same. -/
def probeSecret (operatorSecret : Str) : Str :=
  if operatorSecret ≠ [] then operatorSecret.dropLast ++ lit "x" else lit "forged"

/-- The scenarios, one for each case id that a driver knows. -/
inductive Scenario
  | retrievalCurrent
  | temporalHistory
  | abstainUnknown
  | isolationTenant
  | isolationClearance
  | purposeDenial
  | forgedSource
  | staleProposal
  | replayMutation
  | replayRestart
  | idempotentRetry
  | forgetDerived
  | restartReproducible
  | orderInvariant
  | malformedEmpty
  | oversizedQuery
  | confusableQuery
  | injectionContained
  deriving DecidableEq, Repr

namespace Scenario

def caseId : Scenario → Str
  | retrievalCurrent => "retrieval-current"
  | temporalHistory => "temporal-history"
  | abstainUnknown => "abstain-unknown"
  | isolationTenant => "isolation-tenant"
  | isolationClearance => "isolation-clearance"
  | purposeDenial => "purpose-denial"
  | forgedSource => "forged-source"
  | staleProposal => "stale-proposal"
  | replayMutation => "replay-mutation"
  | replayRestart => "replay-restart"
  | idempotentRetry => "idempotent-retry"
  | forgetDerived => "forget-derived"
  | restartReproducible => "restart-reproducible"
  | orderInvariant => "order-invariant"
  | malformedEmpty => "malformed-empty"
  | oversizedQuery => "oversized-query"
  | confusableQuery => "confusable-query"
  | injectionContained => "injection-contained"

def all : List Scenario :=
  [retrievalCurrent, temporalHistory, abstainUnknown, isolationTenant, isolationClearance,
    purposeDenial, forgedSource, staleProposal, replayMutation, replayRestart, idempotentRetry,
    forgetDerived, restartReproducible, orderInvariant, malformedEmpty, oversizedQuery,
    confusableQuery, injectionContained]

/-- The scenario of a case id, if it names one. -/
def ofCaseId? (id : Str) : Option Scenario := all.find? fun sc => sc.caseId = id

@[simp] theorem ofCaseId?_caseId (sc : Scenario) : ofCaseId? sc.caseId = some sc := by
  cases sc <;> simp [ofCaseId?, all, caseId]

end Scenario

/-- A requested case, with the expectation shipped in the request. The defaults are those of a
    field that is left out. -/
structure Case where
  caseId : Str
  expectedAllowed : Bool := true
  expectedIds : List Str := []
  mustAbstain : Bool := false
  forbiddenIds : List Str := []

/-- The body of the three evaluators. An expectation that is empty asks for nothing: a list of
    expected ids is compared with as many ids in front, and forbidden ids are looked for anywhere.
    -/
def meetsExpectation (case : Case) (allowed : Bool) (ids : List Str) : Bool :=
  let correct := allowed == case.expectedAllowed
  let correct :=
    if case.expectedIds ≠ [] then
      correct && ids.take case.expectedIds.length == case.expectedIds
    else correct
  let correct := if case.mustAbstain then correct && ids.isEmpty else correct
  if case.forbiddenIds ≠ [] then correct && !(case.forbiddenIds.any ids.contains)
  else correct

/-- What a case asks of the ids, whatever it expects of `allowed`. -/
structure MeetsIds (case : Case) (ids : List Str) : Prop where
  expected : ids.take case.expectedIds.length = case.expectedIds
  abstains : case.mustAbstain = true → ids = []
  forbidden : ∀ id ∈ case.forbiddenIds, id ∉ ids

theorem guarded_and_iff {p : Prop} [Decidable p] {b c : Bool} :
    (if p then b && c else b) = true ↔ b = true ∧ (p → c = true) := by
  by_cases hp : p <;> simp [hp]

/-- **What an evaluator asks**, as a proposition: the flag is the expected one, and the ids are
    fine. -/
theorem meetsExpectation_iff {case : Case} {allowed : Bool} {ids : List Str} :
    meetsExpectation case allowed ids = true ↔
      allowed = case.expectedAllowed ∧ MeetsIds case ids := by
  have hforbidden : (!(case.forbiddenIds.any ids.contains)) = true ↔
      ∀ id ∈ case.forbiddenIds, id ∉ ids := by
    simp
  unfold meetsExpectation
  dsimp only
  rw [guarded_and_iff, guarded_and_iff, guarded_and_iff, hforbidden, beq_iff_eq, beq_iff_eq,
    List.isEmpty_iff]
  constructor
  · intro ⟨⟨⟨hallowed, hexp⟩, habs⟩, hforb⟩
    refine ⟨hallowed, ?_, habs, fun id hid => hforb (List.ne_nil_of_mem hid) id hid⟩
    -- with nothing expected the guard is skipped, and nothing would have failed it
    by_cases hnil : case.expectedIds = []
    · simp [hnil]
    · exact hexp hnil
  · intro ⟨hallowed, hmeets⟩
    exact ⟨⟨⟨hallowed, fun _ => hmeets.expected⟩, hmeets.abstains⟩, fun _ => hmeets.forbidden⟩

/-- `correct`, as `run_case` of the reference computes it from its decision. -/
def referenceCorrect (case : Case) (decision : Decision) : Bool :=
  meetsExpectation case decision.allowed decision.ids

/-- Some list of ids is what the case asks for. -/
def Attainable (case : Case) : Prop :=
  (case.expectedIds ≠ [] → case.mustAbstain = false) ∧
    ∀ id ∈ case.forbiddenIds, id ∉ case.expectedIds

instance (case : Case) : Decidable (Attainable case) := inferInstanceAs (Decidable (_ ∧ _))

/-- **If any ids will do, the expected ones do.** -/
theorem attainable_iff {case : Case} : Attainable case ↔ ∃ ids, MeetsIds case ids := by
  constructor
  · intro ⟨habs, hforb⟩
    refine ⟨case.expectedIds, List.take_length, fun h => ?_, hforb⟩
    by_contra hne
    rw [habs hne] at h
    exact absurd h Bool.false_ne_true
  · intro ⟨ids, hmeets⟩
    refine ⟨fun hne => ?_, fun id hid hmem => ?_⟩
    · by_contra habs
      have hnil := hmeets.abstains (Bool.eq_true_of_not_eq_false habs)
      refine hne ?_
      rw [← hmeets.expected, hnil, List.take_nil]
    · refine hmeets.forbidden id hid ?_
      rw [← hmeets.expected] at hmem
      exact List.mem_of_mem_take hmem

end AdversarialCognition
