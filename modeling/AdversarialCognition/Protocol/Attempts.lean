import AdversarialCognition.Protocol.Core

/-!
# The attempts at a case

`_run_case` makes up to three attempts, and the first that neither fails nor finds the system
lacking is the one that counts. `counted` names it, with the state it starts from;
`runCase_of_counted` says the row is made from it and from nothing else.

An attempt starts from whatever state the one before left the system in. Nothing is said here of a
reset doing its work: for a law that holds of every system the state of the next attempt is the
state of the last one, and a law that needs more assumes it of the system by name.

The scenarios are taken apart once, in `scenario_of_compositional`. A property of programs that
holds of calls and is kept by composition holds of a scenario, if it holds of the one guarded
program there is in it, a recall. That failures get through, and that nothing is raised which no
call raised, are both such properties.
-/

namespace AdversarialCognition

open Py Py.Str Prog

/-- What an attempt does before its scenario. -/
def seeding (temporal : Bool) : Prog system Unit := do
  perform (I := system) .reset
  seed temporal

/-- A system that does as it is told and recalls `ids`. It stores nothing. -/
def steady (ids : List Str) : World system Unit
  | _, .reset => (.ok (), ())
  | _, .remember _ => (.ok true, ())
  | _, .recall _ _ _ => (.ok ids, ())
  | _, .forget _ _ => (.ok true, ())
  | _, .improve _ _ _ _ _ _ => (.ok true, ())
  | _, .restart => (.ok (), ())

/-- The scenarios that make a recall. -/
def makesRecall : Scenario → Bool
  | .forgedSource | .staleProposal | .replayMutation | .replayRestart => false
  | _ => true

variable [Runtime] {σ : Type}

/-!
## What holds of every attempt

A scenario is put together of recalls and of calls without handlers. What composition keeps holds
of it, then of the seed, and then of the attempt.
-/

section Compositional

variable {P : (α : Type) → Prog system α → Prop} {temporal : Bool} {sc : Scenario}

/-- What composition keeps holds of a scenario, if it holds of the recalls that are made in it: a
    scenario has no other guard. -/
theorem scenario_of_compositional (hP : Compositional P) (h : makesRecall sc = true →
      ∀ query principal asOf, P CaseOutcome (recallOutcome query principal asOf)) :
    P CaseOutcome (scenario temporal sc) := by
  have hpure : ∀ outcome : CaseOutcome, P CaseOutcome (pure outcome) := hP.pure
  cases sc with
  | forgedSource => exact hP.perform_bind fun done => hpure _
  | staleProposal => exact hP.perform_bind fun done => hpure _
  | replayMutation =>
    exact hP.perform_bind fun first => of_ite (hpure _) (hP.perform_bind fun second => hpure _)
  | replayRestart =>
    exact hP.perform_bind fun first => of_ite (hpure _)
      (hP.perform_bind fun _ => hP.perform_bind fun second => hpure _)
  | idempotentRetry =>
    exact hP.perform_bind fun first => hP.perform_bind fun second =>
      hP.bind (h rfl _ _ _) fun result => hpure _
  | forgetDerived =>
    exact hP.perform_bind fun _ => hP.perform_bind fun forgotten =>
      of_ite (hpure _) (hP.perform_bind fun _ => h rfl _ _ _)
  | restartReproducible =>
    exact hP.bind (h rfl _ _ _) fun before => hP.perform_bind fun _ =>
      hP.bind (h rfl _ _ _) fun after => hpure _
  | orderInvariant =>
    exact hP.bind (h rfl _ _ _) fun first => hP.bind (h rfl _ _ _) fun second => hpure _
  | injectionContained => exact hP.perform_bind fun _ => h rfl _ _ _
  | _ => exact h rfl _ _ _

omit [Runtime] in
theorem seed_of_compositional (hP : Compositional P) (entries : List SeedEntry) :
    P PUnit (entries.forM (seedEntry temporal)) := by
  induction entries with
  | nil => exact hP.pure _
  | cons entry entries ih =>
    exact hP.bind (hP.perform_bind fun _ => hP.pure _) fun _ => ih

theorem attempt_of_compositional (hP : Compositional P) (h : makesRecall sc = true →
      ∀ query principal asOf, P CaseOutcome (recallOutcome query principal asOf)) :
    P CaseOutcome (attempt temporal sc) :=
  hP.perform_bind fun _ => hP.bind (seed_of_compositional hP seedCorpus) fun _ =>
    scenario_of_compositional hP h

end Compositional

theorem attempt_eq_seeding {temporal : Bool} {sc : Scenario} :
    attempt temporal sc = seeding temporal >>= fun _ => scenario temporal sc := by
  rw [attempt, seeding, LawfulMonad.bind_assoc]

/-- The attempt that counts: the state it starts from, and its outcome. -/
def counted (w : World system σ) (temporal : Bool) (sc : Scenario) : ℕ → σ → Option (σ × CaseOutcome)
  | 0, _ => none
  | n + 1, s =>
      match ((attempt temporal sc).run w s).result with
      | .ok outcome => some (s, outcome)
      | .error .unsupported => none
      | .error (.other _ _) => counted w temporal sc n ((attempt temporal sc).run w s).state

section Loop

variable {w : World system σ} {temporal : Bool} {case : Case} {sc : Scenario} {n : ℕ} {s t : σ}
  {lastError : Str} {outcome : CaseOutcome}

/-!
## One attempt

An attempt ends with an outcome, with `Unsupported`, or with another exception, and the loop goes
on only in the third case.
-/

theorem result_scored_of_ok (case : Case)
    (h : ((attempt temporal sc).run w s).result = .ok outcome) :
    ((attempt temporal sc >>= fun outcome => pure (completedRow case outcome)).run w s).result =
      .ok (completedRow case outcome) := by
  rw [run_bind_of_ok h]
  rfl

theorem result_scored_of_error {e : SystemError}
    (h : ((attempt temporal sc).run w s).result = .error e) :
    ((attempt temporal sc >>= fun outcome => pure (completedRow case outcome)).run w s).result =
      .error e := by
  rw [run_bind_of_error h]

theorem attemptsLeft_of_ok (h : ((attempt temporal sc).run w s).result = .ok outcome) :
    ((attemptsLeft temporal case sc (n + 1) lastError).run w s).result =
      .ok (completedRow case outcome) := by
  have hscored := result_scored_of_ok case h
  rw [attemptsLeft, run_tryCatch_of_ok hscored, hscored]

/-- `Unsupported` settles the row, whatever attempts are left. -/
theorem attemptsLeft_of_unsupported
    (h : ((attempt temporal sc).run w s).result = .error .unsupported) :
    ((attemptsLeft temporal case sc (n + 1) lastError).run w s).result =
      .ok (unsupportedRow case.caseId) := by
  rw [attemptsLeft, run_tryCatch_of_error (result_scored_of_error h)]
  rfl

/-- A failed attempt leaves the rest to do, from the state it ended in. -/
theorem attemptsLeft_of_other {typeName text : Str}
    (h : ((attempt temporal sc).run w s).result = .error (.other typeName text)) :
    ((attemptsLeft temporal case sc (n + 1) lastError).run w s).result =
      ((attemptsLeft temporal case sc n (describe typeName text)).run w
        ((attempt temporal sc).run w s).state).result := by
  rw [attemptsLeft, run_tryCatch_of_error (result_scored_of_error h), run_bind_of_error h]

/-!
## The loop

The loop leads to the first attempt that counts, or to none. What is known of every attempt is
known of that one, from the state it started from.
-/

theorem attemptsLeft_of_counted (h : counted w temporal sc n s = some (t, outcome)) :
    ((attemptsLeft temporal case sc n lastError).run w s).result =
      .ok (completedRow case outcome) := by
  induction n generalizing s lastError with
  | zero => exact absurd h (by simp [counted])
  | succ n ih =>
    rw [counted] at h
    cases hattempt : ((attempt temporal sc).run w s).result with
    | ok reached =>
      simp only [hattempt, Option.some.injEq, Prod.mk.injEq] at h
      rw [attemptsLeft_of_ok hattempt, h.2]
    | error e =>
      cases e with
      | unsupported => simp [hattempt] at h
      | other typeName text =>
        simp only [hattempt] at h
        rw [attemptsLeft_of_other hattempt]
        exact ih h

theorem attemptsLeft_of_not_counted (case : Case) (h : counted w temporal sc n s = none) :
    ∃ row, ((attemptsLeft temporal case sc n lastError).run w s).result = .ok row ∧
      row.correct = false := by
  induction n generalizing s lastError with
  | zero => exact ⟨errorRow case.caseId lastError, rfl, rfl⟩
  | succ n ih =>
    rw [counted] at h
    cases hattempt : ((attempt temporal sc).run w s).result with
    | ok reached => simp [hattempt] at h
    | error e =>
      cases e with
      | unsupported => exact ⟨_, attemptsLeft_of_unsupported hattempt, rfl⟩
      | other typeName text =>
        simp only [hattempt] at h
        rw [attemptsLeft_of_other hattempt]
        exact ih h

/-- The counted attempt is an attempt from its own start. So what is known of every attempt is
    known of the one that made the row. -/
theorem attempt_of_counted (h : counted w temporal sc n s = some (t, outcome)) :
    ((attempt temporal sc).run w t).result = .ok outcome := by
  induction n generalizing s with
  | zero => exact absurd h (by simp [counted])
  | succ n ih =>
    rw [counted] at h
    cases hattempt : ((attempt temporal sc).run w s).result with
    | ok reached =>
      simp only [hattempt, Option.some.injEq, Prod.mk.injEq] at h
      rw [← h.1, hattempt, h.2]
    | error e =>
      cases e with
      | unsupported => simp [hattempt] at h
      | other typeName text =>
        simp only [hattempt] at h
        exact ih h

theorem counted_of_ok (h : ((attempt temporal sc).run w s).result = .ok outcome) :
    counted w temporal sc (n + 1) s = some (s, outcome) := by
  rw [counted, h]

end Loop

/-!
## The row

A row is made of the counted attempt, so credit can be traced to one run of one scenario.
-/

section Row

variable {w : World system σ} {capabilities : Finset Capability} {temporal : Bool} {case : Case}
  {sc : Scenario} {s t : σ} {outcome : CaseOutcome} {row : Row}

theorem runCase_of_supported (hsc : supportedScenario? capabilities case.caseId = some sc) :
    runCase capabilities temporal case = attemptsLeft temporal case sc attempts [] := by
  rw [runCase, hsc]

theorem runCase_of_counted (hsc : supportedScenario? capabilities case.caseId = some sc)
    (h : counted w temporal sc attempts s = some (t, outcome)) :
    ((runCase capabilities temporal case).run w s).result = .ok (completedRow case outcome) := by
  rw [runCase_of_supported hsc]
  exact attemptsLeft_of_counted h

/-- **A correct row was made from a counted attempt.** Neither a case that is not supported nor
    one that never completed has a correct row. -/
theorem counted_of_correct (h : ((runCase capabilities temporal case).run w s).result = .ok row)
    (hcorrect : row.correct = true) :
    ∃ sc t outcome, supportedScenario? capabilities case.caseId = some sc ∧
      counted w temporal sc attempts s = some (t, outcome) ∧ row = completedRow case outcome := by
  cases hsc : supportedScenario? capabilities case.caseId with
  | none =>
    rw [runCase, hsc] at h
    cases h
    exact absurd hcorrect Bool.false_ne_true
  | some sc =>
    cases hcounted : counted w temporal sc attempts s with
    | none =>
      rw [runCase_of_supported hsc] at h
      obtain ⟨row', hrow', hfalse⟩ := attemptsLeft_of_not_counted case hcounted
      rw [hrow'] at h
      cases h
      rw [hfalse] at hcorrect
      exact absurd hcorrect Bool.false_ne_true
    | some start =>
      obtain ⟨t, outcome⟩ := start
      rw [runCase_of_counted hsc hcounted] at h
      cases h
      exact ⟨sc, t, outcome, rfl, hcounted, rfl⟩

end Row

end AdversarialCognition
