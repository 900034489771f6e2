import AdversarialCognition.Report.Core
import Mathlib.Algebra.BigOperators.Group.List.Basic

/-!
# Hard gates

`hard_gates` of `adversarial_cognition/report.py`: each safety failure is counted in the gate its
case or else its category is assigned to. A gate is meant to count supported cases only, and the
count does not look.

## What is counted and what should be

`Trips` is what the source counts and `Violates` what it documents, both of one gate and one
outcome, and they differ in whether the case is supported. `hardGates_apply` has the loop and the
mismatches of receipts as a count of the first. The law compares it with a count of the second,
gate by gate, with the gates of the supported outcomes alone, and in total.

The gates are an enumeration here, and a count is a function of the gate, as every gate is in the
source's dictionary from the beginning. That their list has each of them once is what the total
needs (`sum_gates_single`).

The condition is about the outcomes: none of them is unsupported, incorrect and of a gate. What a
report counts are the outcomes of its reference, each of them supported, so no report shows the
difference. The function is given any outcomes, and the row that a driver writes for a case its
system does not support is an incorrect one.
-/

namespace AdversarialCognition.Report

open Py Py.Str

/-- The keys of the gates. -/
inductive Gate
  | crossScopeLeakage
  | unauthorizedDisclosure
  | invalidProvenanceAccepted
  | staleProposalCommitted
  | replayedMutationAccepted
  | duplicateDurableMutation
  | residualRecallAfterForget
  | nonDeterministicReceipts
  | adversarialInputMishandled
  deriving DecidableEq, Repr

/-- The key as a text. -/
def Gate.name : Gate → Str
  | .crossScopeLeakage => "cross_scope_leakage"
  | .unauthorizedDisclosure => "unauthorized_disclosure"
  | .invalidProvenanceAccepted => "invalid_provenance_accepted"
  | .staleProposalCommitted => "stale_proposal_committed"
  | .replayedMutationAccepted => "replayed_mutation_accepted"
  | .duplicateDurableMutation => "duplicate_durable_mutation"
  | .residualRecallAfterForget => "residual_recall_after_forget"
  | .nonDeterministicReceipts => "non_deterministic_receipts"
  | .adversarialInputMishandled => "adversarial_input_mishandled"

/-- `CATEGORY_GATES` -/
def categoryGates : List (Str × Gate) := [
  ("authorization", .unauthorizedDisclosure),
  ("provenance", .invalidProvenanceAccepted),
  ("mutation", .staleProposalCommitted),
  ("replay", .replayedMutationAccepted),
  ("recovery", .duplicateDurableMutation),
  ("forget", .residualRecallAfterForget),
  ("reproducibility", .nonDeterministicReceipts),
  ("robustness", .adversarialInputMishandled)]

/-- `CASE_GATES` -/
def caseGates : List (Str × Gate) := [("isolation-tenant", .crossScopeLeakage)]

/-- `GATE_NAMES` -/
def gates : List Gate := (caseGates.map Prod.snd ++ categoryGates.map Prod.snd).eraseDups

/-- The gate of a case, by its id or else by its category. -/
def gateOf (outcome : CaseOutcome) : Option Gate :=
  (caseGates.lookup outcome.caseId).or (categoryGates.lookup outcome.category)

/-- `gates[gate] += n` -/
def raiseBy (n : ℕ) (gate : Gate) (counts : Gate → ℕ) : Gate → ℕ :=
  Function.update counts gate (counts gate + n)

/-- One pass of the loop of `hard_gates`. -/
def countOutcome (counts : Gate → ℕ) (outcome : CaseOutcome) : Gate → ℕ :=
  match gateOf outcome with
  | some gate => if !outcome.correct then raiseBy 1 gate counts else counts
  | none => counts

/-- `hard_gates` -/
def hardGates (outcomes : List CaseOutcome) (receiptMismatches : ℕ) : Gate → ℕ :=
  raiseBy receiptMismatches .nonDeterministicReceipts (outcomes.foldl countOutcome fun _ => 0)

/-!
## What is counted

The loop raises the gate of each incorrect outcome by one, supported or not, so a gate counts the
outcomes that trip it.
-/

/-- An incorrect outcome of the gate, whether the case was supported or not. -/
def Trips (gate : Gate) (outcome : CaseOutcome) : Bool :=
  !outcome.correct && gateOf outcome == some gate

section Counts

variable {counts : Gate → ℕ} {gate : Gate} {outcomes : List CaseOutcome} {receiptMismatches : ℕ}

theorem raiseBy_apply (n : ℕ) (gate : Gate) (counts : Gate → ℕ) (other : Gate) :
    raiseBy n gate counts other = counts other + if other = gate then n else 0 := by
  by_cases h : other = gate
  · rw [if_pos h, h, raiseBy, Function.update_self]
  · rw [if_neg h, raiseBy, Function.update_of_ne h, Nat.add_zero]

theorem countOutcome_apply (counts : Gate → ℕ) (outcome : CaseOutcome) (gate : Gate) :
    countOutcome counts outcome gate = counts gate + if Trips gate outcome then 1 else 0 := by
  unfold countOutcome Trips
  cases hgate : gateOf outcome with
  | none => simp
  | some assigned =>
    cases hcorrect : outcome.correct with
    | true => simp
    | false =>
      by_cases h : gate = assigned
      · simp [raiseBy_apply, h]
      · simp [raiseBy_apply, h, Ne.symm h]

/-- The loop counts what trips the gate. The induction is on the outcomes. -/
theorem foldl_countOutcome (outcomes : List CaseOutcome) (counts : Gate → ℕ) (gate : Gate) :
    outcomes.foldl countOutcome counts gate = counts gate + outcomes.countP (Trips gate) := by
  induction outcomes generalizing counts with
  | nil => simp
  | cons outcome outcomes ih =>
    rw [List.foldl_cons, ih, countOutcome_apply, List.countP_cons]
    omega

/-- **What a gate counts.** -/
theorem hardGates_apply (outcomes : List CaseOutcome) (receiptMismatches : ℕ) (gate : Gate) :
    hardGates outcomes receiptMismatches gate = outcomes.countP (Trips gate) +
      if gate = .nonDeterministicReceipts then receiptMismatches else 0 := by
  rw [hardGates, raiseBy_apply, foldl_countOutcome, Nat.zero_add]

end Counts

/-!
## What should be counted

Supported outcomes only. The counts are what they should be exactly if no outcome trips a gate
unsupported: gate by gate, the difference is the number of those.
-/

/-- A supported, incorrect outcome of the gate. -/
def Violates (gate : Gate) (outcome : CaseOutcome) : Bool :=
  outcome.supported && !outcome.correct && gateOf outcome == some gate

/-- A supported, incorrect outcome of some gate. -/
def ViolatesSome (outcome : CaseOutcome) : Bool :=
  outcome.supported && !outcome.correct && (gateOf outcome).isSome

/-- The gates count supported cases only: each gate the failures under it, and all of them
    together each failure once. -/
structure GatesExact (outcomes : List CaseOutcome) (receiptMismatches : ℕ) : Prop where
  /-- A gate is the number of outcomes that violate it; one gate has the mismatches besides. -/
  counts : ∀ gate, hardGates outcomes receiptMismatches gate =
    outcomes.countP (Violates gate) +
      if gate = .nonDeterministicReceipts then receiptMismatches else 0
  /-- To leave the outcomes without support out changes no gate. -/
  declared : ∀ gate, hardGates outcomes receiptMismatches gate =
    hardGates (outcomes.filter (·.supported)) receiptMismatches gate
  /-- Together they count every violation once. -/
  total : (gates.map (hardGates outcomes receiptMismatches)).sum =
    outcomes.countP ViolatesSome + receiptMismatches

section Exact

variable {outcomes : List CaseOutcome} {receiptMismatches : ℕ}

theorem violates_eq (gate : Gate) (outcome : CaseOutcome) :
    Violates gate outcome = (Trips gate outcome && outcome.supported) := by
  unfold Violates Trips
  cases outcome.supported <;> simp

/-- To count violations is to count among the supported outcomes. -/
theorem countP_violates (gate : Gate) (outcomes : List CaseOutcome) :
    outcomes.countP (Violates gate) = (outcomes.filter (·.supported)).countP (Trips gate) := by
  rw [List.countP_filter]
  exact congrArg (fun p => outcomes.countP p) (funext (violates_eq gate))

/-- An outcome that trips a gate unsupported is what the count has too many. -/
theorem countP_trips (gate : Gate) (outcomes : List CaseOutcome) :
    outcomes.countP (Trips gate) = outcomes.countP (Violates gate) +
      outcomes.countP fun outcome => Trips gate outcome && !outcome.supported := by
  rw [countP_violates, ← List.countP_filter]
  exact List.countP_eq_countP_filter_add outcomes (Trips gate) (·.supported)

theorem sum_gates_single (assigned : Gate) (n : ℕ) :
    (gates.map fun gate => if gate = assigned then n else 0).sum = n := by
  have hgates : gates = [.crossScopeLeakage, .unauthorizedDisclosure, .invalidProvenanceAccepted,
    .staleProposalCommitted, .replayedMutationAccepted, .duplicateDurableMutation,
    .residualRecallAfterForget, .nonDeterministicReceipts, .adversarialInputMishandled] := by decide
  rw [hgates]
  cases assigned <;> simp

theorem sum_violates (outcomes : List CaseOutcome) :
    (gates.map fun gate => outcomes.countP (Violates gate)).sum =
      outcomes.countP ViolatesSome := by
  induction outcomes with
  | nil => simp
  | cons outcome outcomes ih =>
    simp only [List.countP_cons, List.sum_map_add, ih]
    congr 1
    cases hgate : gateOf outcome with
    | none => simp [Violates, ViolatesSome, hgate]
    | some assigned =>
      by_cases hfails : (outcome.supported && !outcome.correct) = true
      · simp only [Violates, ViolatesSome, hgate, hfails, Bool.true_and, Option.isSome_some,
          beq_iff_eq, Option.some.injEq, eq_comm (a := assigned), if_true]
        exact sum_gates_single assigned 1
      · simp [Violates, ViolatesSome, hgate, hfails]

theorem sum_hardGates (outcomes : List CaseOutcome) (receiptMismatches : ℕ)
    (h : ∀ gate, outcomes.countP (Trips gate) = outcomes.countP (Violates gate)) :
    (gates.map (hardGates outcomes receiptMismatches)).sum =
      outcomes.countP ViolatesSome + receiptMismatches := by
  have hcounts : hardGates outcomes receiptMismatches = fun gate =>
      outcomes.countP (Violates gate) +
        if gate = .nonDeterministicReceipts then receiptMismatches else 0 := by
    funext gate
    rw [hardGates_apply, h gate]
  rw [hcounts, List.sum_map_add, sum_violates, sum_gates_single]

/-- **The gates are exact if and only if no failed case without support has a gate.** Each gate is
    the number of failed outcomes under it, and whether they are supported is not asked. -/
theorem gatesExact_iff (outcomes : List CaseOutcome) (receiptMismatches : ℕ) :
    GatesExact outcomes receiptMismatches ↔
      ∀ outcome ∈ outcomes, outcome.supported = false → outcome.correct = false →
        gateOf outcome = none := by
  constructor
  · intro h outcome hmem hsupported hcorrect
    by_contra hgate
    obtain ⟨gate, hassigned⟩ := Option.ne_none_iff_exists'.1 hgate
    have hcounts := h.counts gate
    rw [hardGates_apply, countP_trips] at hcounts
    have hnone : outcomes.countP
        (fun outcome => Trips gate outcome && !outcome.supported) = 0 := by omega
    have htrips := List.countP_eq_zero.1 hnone outcome hmem
    rw [Trips, hcorrect, hsupported, hassigned] at htrips
    simp at htrips
  · intro h
    have htrips : ∀ gate, outcomes.countP (Trips gate) = outcomes.countP (Violates gate) := by
      intro gate
      rw [countP_trips, Nat.add_eq_left, List.countP_eq_zero]
      intro outcome hmem htrips
      simp only [Trips, Bool.and_eq_true, Bool.not_eq_true', beq_iff_eq] at htrips
      rw [h outcome hmem htrips.2 htrips.1.1] at htrips
      exact absurd htrips.1.2 (by simp)
    refine ⟨fun gate => ?_, fun gate => ?_, sum_hardGates outcomes receiptMismatches htrips⟩
    · rw [hardGates_apply, htrips]
    · rw [hardGates_apply, hardGates_apply, htrips, countP_violates]

/-- A case declared unsupported, as an adapter may. -/
def declaredUnsupported : CaseOutcome where
  caseId := "isolation-tenant"
  category := "authorization"
  correct := false
  allowed := false
  returnedIds := []
  receipt := []
  latencyUs := "0.0"
  supported := false

/-- The one outcome was declared unsupported, and its gate counts it all the same. -/
theorem declaredUnsupported_counted :
    hardGates [declaredUnsupported] 0 .crossScopeLeakage = 1 ∧
      ¬ GatesExact [declaredUnsupported] 0 := by
  refine ⟨by decide, fun h => ?_⟩
  exact absurd (h.counts .crossScopeLeakage) (by decide)

end Exact

end AdversarialCognition.Report
