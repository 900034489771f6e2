import AdversarialCognition.Protocol.Attempts
import AdversarialCognition.Lib.Sha256
import Mathlib.Data.Set.Defs
import Mathlib.Logic.Function.Iterate

/-!
# Retries

A failure that gets out of an attempt is retried, and the rows are as if it had not happened. A
failure of `recall` does not get out: the scenarios' `recall` takes it for a denial.
`transparent_iff` makes the difference exact. Failures come from outside, as a `FaultPlan` over a
system that is otherwise left alone.

## What transparency assumes of a system

That a reset leads to the same state from wherever it is made, and that left alone the system does
not fail. The first is what a reset is for; without it the attempt behind a failed one would not
be the attempt there was without the failure, and no driver could do anything about it. Both are
assumed of the system inside of the law, so the result is about each kind of failure alone: for
every set of kinds, no failure of these ever changes the row exactly if none of them is a failure
of a recall that the scenario makes.

The other direction takes one plan and one system (`recallsFail`, `steady improvedTwice`), for
every scenario that recalls. The plan lets all recalls of a first attempt fail and none of a
second, so that an attempt without failures was left to be made, and was not made.
-/

namespace AdversarialCognition

open Py Py.Str Prog

inductive CallKind
  | reset
  | remember
  | recall
  | forget
  | improve
  | restart
  deriving DecidableEq

/-- Which method was called. -/
def SystemCall.kind : SystemCall → CallKind
  | .reset => .reset
  | .remember _ => .remember
  | .recall _ _ _ => .recall
  | .forget _ _ => .forget
  | .improve _ _ _ _ _ _ => .improve
  | .restart => .restart

/-- The calls of the given kinds. -/
def Among (K : Set CallKind) (c : SystemCall) : Prop := c.kind ∈ K

section Propagation

variable [Runtime] {K : Set CallKind} {temporal : Bool}

omit [Runtime] in
/-- A guarded recall lets everything through but failures of recalls. -/
theorem recallOutcome_propagates (h : .recall ∉ K) (query principal : Str) (asOf : Option Date) :
    (recallOutcome query principal asOf).Propagates fun c _ => Among K c := by
  refine propagates_tryCatch_perform (I := system) (c := .recall query principal asOf)
    (fun _ hmem => absurd hmem h) fun e => ?_
  cases e with
  | unsupported => trivial
  | other typeName text => trivial

theorem attempt_propagates {sc : Scenario} (h : .recall ∈ K → makesRecall sc = false) :
    (attempt temporal sc).Propagates fun c _ => Among K c := by
  apply attempt_of_compositional (compositional_propagates (I := system) fun c _ => Among K c)
  intro hmakes
  apply recallOutcome_propagates
  intro hmem
  rw [h hmem] at hmakes
  exact Bool.false_ne_true hmakes

end Propagation

/-!
## Attempts under failures

A failure that gets out of an attempt ends it, and the next begins with a reset. If resets lead to
one state then the first attempt that is not hit is the attempt of the system left alone, and its
row is the row.
-/

section Faults

variable [Runtime] {σ : Type}

/-- Where attempt `k` starts when the ones before it are over. -/
def attemptStart (w : World system σ) (temporal : Bool) (sc : Scenario) (s : σ) (k : ℕ) : σ :=
  (fun t => ((attempt temporal sc).run w t).state)^[k] s

/-- A planned failure hits attempt `k`. It is seen in the failures so far, before and behind. -/
def Disturbed (plan : FaultPlan system) (w : World system σ) (temporal : Bool) (sc : Scenario)
    (s : Struck system σ) (k : ℕ) : Prop :=
  (attemptStart (withFaults plan w) temporal sc s (k + 1)).struck ≠
    (attemptStart (withFaults plan w) temporal sc s k).struck

/-- The failures are of the kinds in `K`, and no `Unsupported` among them. -/
structure Transient (K : Set CallKind) (plan : FaultPlan system) : Prop where
  kinds : ∀ n c e, plan n c = some e → Among K c
  other : ∀ n c e, plan n c = some e → e ≠ .unsupported

/-- A reset leads to the same state from everywhere. -/
def ResetsAlike (w : World system σ) : Prop := ∀ s s', w s .reset = w s' .reset

/-- Left alone, an attempt does not fail. -/
def Unfailing (w : World system σ) (temporal : Bool) (sc : Scenario) (s : σ) : Prop :=
  ∀ e, ((attempt temporal sc).run w s).result = .error e → e = .unsupported

/-- The failures do not change the row of the case: not if an attempt is left that they do not
    hit, and if none is, the row says so. -/
structure RowKept (capabilities : Finset Capability) (temporal : Bool) (case : Case)
    (sc : Scenario) (plan : FaultPlan system) (w : World system σ) (s : σ) : Prop where
  /-- If the first `k` attempts are disturbed and the next is not, the row is that of a run
      without failures. -/
  retried : ∀ k < attempts, (∀ j < k, Disturbed plan w temporal sc ⟨s, 0, []⟩ j) →
    ¬ Disturbed plan w temporal sc ⟨s, 0, []⟩ k →
    ((runCase capabilities temporal case).run (withFaults plan w) ⟨s, 0, []⟩).result =
      ((runCase capabilities temporal case).run w s).result
  /-- If all are, the row is an error, and names the last one that was met. -/
  reported : (∀ j < attempts, Disturbed plan w temporal sc ⟨s, 0, []⟩ j) →
    ∃ typeName text row,
      (attemptStart (withFaults plan w) temporal sc ⟨s, 0, []⟩ attempts).struck.head? =
        some (.other typeName text) ∧
      ((runCase capabilities temporal case).run (withFaults plan w) ⟨s, 0, []⟩).result = .ok row ∧
      row.supported = true ∧ row.correct = false ∧ row.error = some (describe typeName text)

/-- Failures of the kinds in `K` never change the row of the case, over all systems that reset and
    do not fail by themselves. -/
def TransparentTo (K : Set CallKind) (capabilities : Finset Capability) (temporal : Bool)
    (case : Case) : Prop :=
  ∀ (sc : Scenario), supportedScenario? capabilities case.caseId = some sc →
    ∀ (σ : Type) (w : World system σ) (s : σ) (plan : FaultPlan system),
      ResetsAlike w → Unfailing w temporal sc s → Transient K plan →
        RowKept capabilities temporal case sc plan w s

section Retried

variable {K : Set CallKind} {plan : FaultPlan system} {w : World system σ} {temporal : Bool}
  {case : Case} {sc : Scenario} {s : σ}

theorem attemptStart_succ (w : World system σ) (s : σ) (k : ℕ) :
    attemptStart w temporal sc s (k + 1) =
      ((attempt temporal sc).run w (attemptStart w temporal sc s k)).state :=
  Function.iterate_succ_apply' _ _ _

/-- After failed attempts, the loop goes on from where they lead. -/
theorem attemptsLeft_after {n k : ℕ} {lastError : Str} (hk : k ≤ n)
    (h : ∀ j < k, ∃ typeName text,
      ((attempt temporal sc).run w (attemptStart w temporal sc s j)).result =
        .error (.other typeName text)) :
    ∃ lastError', ((attemptsLeft temporal case sc n lastError).run w s).result =
      ((attemptsLeft temporal case sc (n - k) lastError').run w
        (attemptStart w temporal sc s k)).result := by
  induction k with
  | zero => exact ⟨lastError, rfl⟩
  | succ k ih =>
    obtain ⟨lastError', hlast⟩ := ih (Nat.le_of_succ_le hk) fun j hj => h j (Nat.lt_succ_of_lt hj)
    obtain ⟨typeName, text, hfail⟩ := h k (Nat.lt_succ_self k)
    have hleft : n - k = (n - (k + 1)) + 1 := by omega
    rw [hleft, attemptsLeft_of_other hfail, ← attemptStart_succ] at hlast
    exact ⟨_, hlast⟩

/-- Where resets lead to one state, it does not matter where an attempt starts. -/
theorem run_attempt_congr (h : ResetsAlike w) (s s' : σ) :
    (attempt temporal sc).run w s = (attempt temporal sc).run w s' := by
  rw [attempt, run_bind, run_bind, run_perform, run_perform, h s s']

/-- **A failure that hits an attempt ends it.** -/
theorem fails_of_disturbed {s : Struck system σ} {k : ℕ} (hK : .recall ∈ K → makesRecall sc = false)
    (hplan : Transient K plan) (h : Disturbed plan w temporal sc s k) :
    ∃ typeName text,
      ((attempt temporal sc).run (withFaults plan w)
        (attemptStart (withFaults plan w) temporal sc s k)).result = .error (.other typeName text) ∧
      (attemptStart (withFaults plan w) temporal sc s (k + 1)).struck.head? =
        some (.other typeName text) := by
  unfold Disturbed at h
  rw [attemptStart_succ] at h ⊢
  obtain ⟨e, hresult, hstruck, n, c, he⟩ :=
    run_withFaults_of_struck (attempt_propagates hK) hplan.kinds h
  rw [hstruck]
  cases e with
  | unsupported => exact absurd rfl (hplan.other n c _ he)
  | other typeName text => exact ⟨typeName, text, hresult, rfl⟩

/-- An attempt that is not hit is the attempt of the system left alone. -/
theorem result_of_not_disturbed {s : Struck system σ} {k : ℕ} (hreset : ResetsAlike w) (s₀ : σ)
    (h : ¬ Disturbed plan w temporal sc s k) :
    ((attempt temporal sc).run (withFaults plan w)
        (attemptStart (withFaults plan w) temporal sc s k)).result =
      ((attempt temporal sc).run w s₀).result := by
  have hsame := not_not.mp h
  rw [attemptStart_succ] at hsame
  rw [(run_withFaults_of_none hsame).1, run_attempt_congr hreset _ s₀]

/-- Failures that get out of the attempt do not change the row. The first attempt that is not hit
    is the one that a run without failures would have made. -/
theorem rowKept {capabilities : Finset Capability}
    (hsc : supportedScenario? capabilities case.caseId = some sc)
    (hK : .recall ∈ K → makesRecall sc = false) (hreset : ResetsAlike w)
    (hclean : Unfailing w temporal sc s) (hplan : Transient K plan) :
    RowKept capabilities temporal case sc plan w s := by
  constructor
  -- an attempt that is not disturbed gives the row that it gives without faults
  · intro k hk hbefore hnot
    rw [runCase_of_supported hsc]
    obtain ⟨lastError, hafter⟩ := attemptsLeft_after (Nat.le_of_lt hk) fun j hj => by
      obtain ⟨typeName, text, hfail, -⟩ := fails_of_disturbed hK hplan (hbefore j hj)
      exact ⟨typeName, text, hfail⟩
    have hleft : attempts - k = (attempts - k - 1) + 1 := by omega
    rw [hafter, hleft]
    have hresult := result_of_not_disturbed hreset s hnot
    cases hattempt : ((attempt temporal sc).run w s).result with
    | ok outcome =>
      rw [hattempt] at hresult
      rw [attemptsLeft_of_ok hresult]
      exact (attemptsLeft_of_ok hattempt).symm
    | error e =>
      have he := hclean e hattempt
      subst he
      rw [hattempt] at hresult
      rw [attemptsLeft_of_unsupported hresult]
      exact (attemptsLeft_of_unsupported hattempt).symm
  -- if all are, the row is that of the last error
  · intro hall
    rw [runCase_of_supported hsc]
    obtain ⟨lastError, hafter⟩ := attemptsLeft_after (n := attempts) (k := 2) (by decide) fun j hj => by
      obtain ⟨typeName, text, hfail, -⟩ := fails_of_disturbed hK hplan
        (hall j (Nat.lt_succ_of_lt hj))
      exact ⟨typeName, text, hfail⟩
    obtain ⟨typeName, text, hfail, hlast⟩ := fails_of_disturbed hK hplan
      (hall 2 (Nat.lt_succ_self 2))
    refine ⟨typeName, text, errorRow case.caseId (describe typeName text), hlast, ?_, rfl, rfl, rfl⟩
    rw [hafter]
    exact attemptsLeft_of_other hfail

end Retried

end Faults

/-!
## Failures of recalls

A failure that does not get out: the recall is caught and scored as a denial. The plan hits the
recalls of the first attempt and no other call, which makes it counted and wrong.
-/

/-- The first recalls fail: all that a first attempt makes, and none of a second. -/
def recallsFail : FaultPlan system
  | n, .recall _ _ _ => if n < 10 then some (.other [] []) else none
  | _, _ => none

theorem recallsFail_eq_some_iff {n : ℕ} {c : SystemCall} {e : SystemError} :
    recallsFail n c = some e ↔ c.kind = .recall ∧ n < 10 ∧ e = .other [] [] := by
  cases c with
  | «recall» query principal asOf => simp [recallsFail, SystemCall.kind, eq_comm]
  | _ => simp [recallsFail, SystemCall.kind]

theorem transient_recallsFail {K : Set CallKind} (h : .recall ∈ K) : Transient K recallsFail := by
  constructor
  · intro n c e he
    show c.kind ∈ K
    rw [(recallsFail_eq_some_iff.mp he).1]
    exact h
  · intro n c e he
    rw [(recallsFail_eq_some_iff.mp he).2.2]
    exact fun heq => nomatch heq

/-- The improved price twice, so that no retry is stable. -/
def improvedTwice : List Str := [lit "price-improved", lit "price-improved"]

theorem run_seeding_recallsFail (temporal : Bool) (s : Struck system Unit) :
    ((seeding temporal).run (withFaults recallsFail (steady improvedTwice)) s).result = .ok () ∧
      ((seeding temporal).run (withFaults recallsFail (steady improvedTwice)) s).state =
        { s with calls := s.calls + 5 } :=
  ⟨rfl, rfl⟩

theorem run_seeding_steady (temporal : Bool) :
    ((seeding temporal).run (steady improvedTwice) ()).result = .ok () := rfl

section Recalls

variable [Runtime] {temporal : Bool} {sc : Scenario}

/-- An attempt comes to what its scenario does behind the seeding. -/
theorem run_attempt_withFaults (temporal : Bool) (sc : Scenario) (s : Struck system Unit) :
    ((attempt temporal sc).run (withFaults recallsFail (steady improvedTwice)) s).result =
        ((scenario temporal sc).run (withFaults recallsFail (steady improvedTwice))
          { s with calls := s.calls + 5 }).result ∧
      ((attempt temporal sc).run (withFaults recallsFail (steady improvedTwice)) s).state =
        ((scenario temporal sc).run (withFaults recallsFail (steady improvedTwice))
          { s with calls := s.calls + 5 }).state := by
  obtain ⟨hresult, hstate⟩ := run_seeding_recallsFail temporal s
  rw [attempt_eq_seeding, run_bind_of_ok hresult, hstate]
  exact ⟨rfl, rfl⟩

/-- Left alone, every scenario that recalls is allowed, but for the retry. -/
theorem run_attempt_steady (temporal : Bool) (h : makesRecall sc = true) :
    ∃ outcome, ((attempt temporal sc).run (steady improvedTwice) ()).result = .ok outcome ∧
      outcome.allowed = (sc != .idempotentRetry) := by
  rw [attempt_eq_seeding, run_bind_of_ok (run_seeding_steady temporal)]
  cases sc with
  | forgedSource => exact nomatch h
  | staleProposal => exact nomatch h
  | replayMutation => exact nomatch h
  | replayRestart => exact nomatch h
  | _ => exact ⟨_, rfl, rfl⟩

/-- Its recalls failing, a first attempt is over all the same, and the other way round. A
    second one is not hit. -/
theorem run_attempt_recallsFail (temporal : Bool) (h : makesRecall sc = true) :
    ∃ outcome calls e struck,
      ((attempt temporal sc).run (withFaults recallsFail (steady improvedTwice))
        ⟨(), 0, []⟩).result = .ok outcome ∧ outcome.allowed = (sc == .idempotentRetry) ∧
      ((attempt temporal sc).run (withFaults recallsFail (steady improvedTwice))
        ⟨(), 0, []⟩).state = ⟨(), calls, e :: struck⟩ ∧
      ((attempt temporal sc).run (withFaults recallsFail (steady improvedTwice))
        ⟨(), calls, e :: struck⟩).state.struck = e :: struck := by
  simp only [run_attempt_withFaults temporal sc]
  cases sc with
  | forgedSource => exact nomatch h
  | staleProposal => exact nomatch h
  | replayMutation => exact nomatch h
  | replayRestart => exact nomatch h
  | _ => exact ⟨_, _, _, _, rfl, rfl, rfl, rfl⟩

theorem disturbed_recallsFail (temporal : Bool) (h : makesRecall sc = true) :
    Disturbed recallsFail (steady improvedTwice) temporal sc ⟨(), 0, []⟩ 0 ∧
      ¬ Disturbed recallsFail (steady improvedTwice) temporal sc ⟨(), 0, []⟩ 1 := by
  obtain ⟨_, calls, e, struck, -, -, hfirst, hsecond⟩ := run_attempt_recallsFail temporal h
  have hstart : attemptStart (withFaults recallsFail (steady improvedTwice)) temporal sc
      ⟨(), 0, []⟩ 1 = ⟨(), calls, e :: struck⟩ := hfirst
  constructor
  · unfold Disturbed
    rw [hstart]
    exact List.cons_ne_nil _ _
  · unfold Disturbed
    rw [attemptStart_succ, hstart, hsecond]
    exact fun hne => hne rfl

theorem not_rowKept (temporal : Bool) {capabilities : Finset Capability} {case : Case}
    (hsc : supportedScenario? capabilities case.caseId = some sc) (h : makesRecall sc = true) :
    ¬ RowKept capabilities temporal case sc recallsFail (steady improvedTwice) () := by
  intro hkept
  obtain ⟨hfirst, hsecond⟩ := disturbed_recallsFail temporal h
  obtain ⟨clean, hclean, hallowed⟩ := run_attempt_steady temporal h
  obtain ⟨faulty, _, _, _, hfaulty, hdenied, -, -⟩ := run_attempt_recallsFail temporal h
  have hrows := hkept.retried 1 (by decide) (fun j hj => Nat.lt_one_iff.mp hj ▸ hfirst) hsecond
  rw [runCase_of_supported hsc] at hrows
  have hrow : completedRow case faulty = completedRow case clean :=
    Except.ok.inj ((attemptsLeft_of_ok hfaulty).symm.trans
      (hrows.trans (attemptsLeft_of_ok hclean)))
  have hsame : faulty.allowed = clean.allowed := congrArg Row.allowed hrow
  rw [hallowed, hdenied] at hsame
  cases sc with
  | _ => exact nomatch hsame

/-- **Failures never change a row unless they can hit a recall.** The scenarios catch what a
    recall raises and go on, so that attempt completes and there is no other; every other failure
    ends the attempt, and the next one begins from a reset. -/
theorem transparent_iff {K : Set CallKind} {capabilities : Finset Capability} {case : Case} :
    TransparentTo K capabilities temporal case ↔
      ∀ sc, supportedScenario? capabilities case.caseId = some sc → .recall ∈ K →
        makesRecall sc = false := by
  constructor
  · intro htransparent sc hsc hmem
    by_contra hmakes
    have hrecalls := Bool.eq_true_of_not_eq_false hmakes
    refine not_rowKept temporal hsc hrecalls ?_
    apply htransparent sc hsc Unit (steady improvedTwice) () recallsFail
    · exact fun _ _ => rfl
    · intro e he
      obtain ⟨outcome, hok, -⟩ := run_attempt_steady temporal hrecalls
      rw [hok] at he
      exact nomatch he
    · exact transient_recallsFail hmem
  · intro hK sc hsc σ w s plan hreset hclean hplan
    exact rowKept hsc (hK sc hsc) hreset hclean hplan

end Recalls

section

attribute [local instance] cpython

def coffeeCase : Case := { caseId := "retrieval-current", expectedIds := [lit "price-current"] }

/-- The recall of the first attempt fails and the system is otherwise sound. The failure is
    scored as a wrong denial, with no error and no second attempt. -/
theorem failed_recall_scored :
    ResetsAlike (steady [lit "price-current"]) ∧
      Unfailing (steady [lit "price-current"]) true .retrievalCurrent () ∧
      Transient {.recall} recallsFail ∧
      Disturbed recallsFail (steady [lit "price-current"]) true .retrievalCurrent ⟨(), 0, []⟩ 0 ∧
      ¬ Disturbed recallsFail (steady [lit "price-current"]) true .retrievalCurrent ⟨(), 0, []⟩ 1 ∧
      ((runCase {.temporal} true coffeeCase).run (steady [lit "price-current"]) ()).result =
        .ok { caseId := "retrieval-current", correct := true, allowed := true,
              returnedIds := [lit "price-current"], supported := true } ∧
      ((runCase {.temporal} true coffeeCase).run
          (withFaults recallsFail (steady [lit "price-current"])) ⟨(), 0, []⟩).result =
        .ok { caseId := "retrieval-current", correct := false, allowed := false,
              supported := true } := by
  refine ⟨fun _ _ => rfl, ?_, transient_recallsFail rfl, ?_, ?_, ?_, ?_⟩
  · exact fun e he => nomatch he
  · exact List.cons_ne_nil (SystemError.other [] []) []
  · exact fun hne => hne rfl
  · rfl
  · rfl

end

end AdversarialCognition
