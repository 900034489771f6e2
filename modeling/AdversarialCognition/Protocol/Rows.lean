import AdversarialCognition.Protocol.Attempts

/-!
# One row for each case

What the driver does for a case, as a discipline over the trace: no call for a case it does not
support; else attempts one after another, each begun by the reset and the seed writes, and a row
that says how the last of them ended. A system may raise anything at any call, and nothing else
raises: an attempt that ends with an exception ends on the call that raised it, and `Unsupported`,
from whatever call it comes, is never held back on the way.

`run_attemptsLeft` is the law of the loop of `_run_case`, and `run_runCase` that of the function.
The rows of a request follow, since a case never ends with an exception.

## What keeps the discipline honest

A discipline over traces is easily too weak: an attempt that made half of its calls and stopped,
with an exception of its own, might still have it. Three fields are there against this. `begins`
goes with the result of the attempt, so an attempt may stop in the midst of the seed writes only
on a call that raised, and with what that call raised. `raised` says the same of the whole
attempt. And `declared` ties a row that is not supported to a call in the trace that raised
`Unsupported`; with `unsupported` it says that such a call is never followed by a completed
attempt.

All of it is proved of the code and not of a system: the properties are those of `Prog` that hold
under every answer.
-/

namespace AdversarialCognition

open Py Py.Str Prog

/-- What an attempt calls before its scenario does: the reset, then a write for each entry. -/
def seedingCalls (temporal : Bool) : List SystemCall :=
  .reset :: seedCorpus.map fun entry => .remember (seedArgs temporal entry)

theorem forM_seedEntry (temporal : Bool) (entries : List SeedEntry) :
    entries.forM (seedEntry temporal) =
      performAll (I := system) (entries.map fun entry => .remember (seedArgs temporal entry)) := by
  induction entries with
  | nil => rfl
  | cons entry rest ih =>
    have hstep : (entry :: rest).forM (seedEntry temporal) =
        seedEntry temporal entry >>= fun _ => rest.forM (seedEntry temporal) := rfl
    rw [hstep, ih, seedEntry, LawfulMonad.bind_assoc]
    rfl

/-- What comes before a scenario is calls in a row, with no look at what they answer. -/
theorem seeding_eq_performAll (temporal : Bool) :
    seeding temporal = performAll (I := system) (seedingCalls temporal) := by
  rw [seeding, seed, forM_seedEntry]
  rfl

variable {σ : Type}

section Discipline

/-- Runs of a program one after another, each from the state the last one ended in. -/
def Chained {α : Type} (w : World system σ) (p : Prog system α) :
    σ → List (Outcome system σ α) → Prop
  | _, [] => True
  | s, o :: rest => o = p.run w s ∧ Chained w p o.state rest

/-- The attempt ended with an exception other than `Unsupported`, so another one may follow. -/
def Failed {α : Type} (o : Outcome system σ α) : Prop :=
  ∃ typeName text, o.result = .error (.other typeName text)

/-- An attempt raised `Unsupported`, and none before it completed. -/
def FoundUnsupported {α : Type} (runs : List (Outcome system σ α)) : Prop :=
  ∃ before o after, runs = before ++ o :: after ∧ o.result = .error .unsupported ∧
    ∀ earlier ∈ before, ∀ outcome, earlier.result ≠ .ok outcome

/-- At most `n` attempts at a case, and the row they leave. The trace is made of theirs, one
    behind the other, and of nothing else. -/
structure AttemptDiscipline [Runtime] (w : World system σ) (temporal : Bool) (sc : Scenario)
    (n : ℕ) (s : σ) (runs : List (Outcome system σ CaseOutcome)) (row : Row)
    (trace : List (Event system)) : Prop where
  /-- Each attempt begins in the state that the one before it left. -/
  chained : Chained w (attempt temporal sc) s runs
  trace_eq : trace = (runs.map (·.trace)).flatten
  bounded : runs.length ≤ n
  /-- Only an attempt that failed is followed by another. -/
  onward : ∀ o ∈ runs.dropLast, Failed o
  /-- Each begins with a reset. -/
  reset : ∀ o ∈ runs, (calls o.trace).head? = some SystemCall.reset
  /-- And goes on to the seed, as far as it gets. -/
  begins : ∀ o ∈ runs, BeginsWith (I := system) o.result (seedingCalls temporal) o.trace
  /-- What it raises, if it does, is what its last call raised. -/
  raised : ∀ o ∈ runs, RaisedByCall o
  /-- The row is without support exactly if an attempt found none. -/
  unsupported : row.supported = false ↔ FoundUnsupported runs
  /-- And that is exactly if some call was answered with `Unsupported`. -/
  declared : row.supported = false ↔
    ∃ c : SystemCall, Event.called (I := system) c (.error .unsupported) ∈ trace

/-- What the driver calls for a case, and the row it emits for it. A case without support is
    emitted without any call, and one with support after at least one attempt. -/
structure CaseDiscipline [Runtime] (m : MemorySystem σ) (case : Case) (row : Row)
    (trace : List (Event system)) : Prop where
  /-- The row is the case's. -/
  sameId : row.caseId = case.caseId
  /-- A row without support says nothing else. -/
  blank : row.supported = false →
    row.correct = false ∧ row.allowed = false ∧ row.returnedIds = []
  /-- A case that the claims do not cover is asked of nobody. -/
  unmet : supported m.capabilities case.caseId = false → trace = [] ∧ row.supported = false
  /-- One that they cover is attempted, as often as the discipline allows. -/
  met : supported m.capabilities case.caseId = true →
    ∃ sc s runs, supportedScenario? m.capabilities case.caseId = some sc ∧ runs ≠ [] ∧
      AttemptDiscipline m.world (.temporal ∈ m.capabilities) sc attempts s runs row trace

end Discipline

/-!
## The loop

An attempt ends with what its last call has raised, since it raises nothing of its own. By the one
guard it has, `Unsupported` gets through and everything else does not.
-/

section FoundUnsupported

variable {α : Type} {o : Outcome system σ α} {rest : List (Outcome system σ α)}

theorem not_foundUnsupported_nil : ¬ FoundUnsupported ([] : List (Outcome system σ α)) := by
  intro h
  obtain ⟨before, o, after, heq, -, -⟩ := h
  exact absurd heq.symm (by simp)

theorem foundUnsupported_cons :
    FoundUnsupported (o :: rest) ↔ o.result = .error .unsupported ∨
      (∀ outcome, o.result ≠ .ok outcome) ∧ FoundUnsupported rest := by
  constructor
  · intro h
    obtain ⟨before, raised, after, heq, hraised, hbefore⟩ := h
    cases before with
    | nil =>
      rw [List.nil_append, List.cons.injEq] at heq
      rw [heq.1]
      exact .inl hraised
    | cons first before =>
      rw [List.cons_append, List.cons.injEq] at heq
      refine .inr ⟨?_, before, raised, after, heq.2, hraised, ?_⟩
      · rw [heq.1]
        exact hbefore first List.mem_cons_self
      · exact fun earlier hmem => hbefore earlier (List.mem_cons_of_mem _ hmem)
  · intro h
    cases h with
    | inl hraised => exact ⟨[], o, rest, rfl, hraised, by simp⟩
    | inr hlater =>
      obtain ⟨hfirst, before, raised, after, heq, hraised, hbefore⟩ := hlater
      refine ⟨o :: before, raised, after, by rw [heq, List.cons_append], hraised, ?_⟩
      intro earlier hmem
      cases List.mem_cons.1 hmem with
      | inl heq =>
        rw [heq]
        exact hfirst
      | inr htail => exact hbefore earlier htail

end FoundUnsupported

variable [Runtime]

section Loop

variable {w : World system σ} {temporal : Bool} {sc : Scenario} {case : Case} {n : ℕ} {s : σ}
  {lastError : Str} {runs : List (Outcome system σ CaseOutcome)} {row : Row}
  {trace : List (Event system)}

/-- An attempt never gets past its seeding without having made all its calls. -/
theorem attempt_begins (w : World system σ) (temporal : Bool) (sc : Scenario) (s : σ) :
    BeginsWith (I := system) ((attempt temporal sc).run w s).result (seedingCalls temporal)
      ((attempt temporal sc).run w s).trace := by
  rw [attempt_eq_seeding, seeding_eq_performAll]
  exact beginsWith_performAll_bind _ _ s

theorem attempt_resets (w : World system σ) (temporal : Bool) (sc : Scenario) (s : σ) :
    (calls ((attempt temporal sc).run w s).trace).head? = some SystemCall.reset := by
  obtain ⟨later, hcalls⟩ := calls_perform_bind (I := system) (w := w) (s := s) .reset
    fun _ => seed temporal >>= fun _ => scenario temporal sc
  rw [attempt, hcalls]
  rfl

theorem attempt_raised (w : World system σ) (temporal : Bool) (sc : Scenario) (s : σ) :
    RaisedByCall ((attempt temporal sc).run w s) := by
  refine Relays.raisedByCall ?_ w s
  apply attempt_of_compositional (compositional_relays (I := system))
  intro _ query principal asOf
  refine relays_tryCatch_perform (I := system) (c := .recall query principal asOf) fun e => ?_
  cases e with
  | unsupported => rfl
  | other typeName text => trivial

/-- An attempt ends with `Unsupported` exactly if one of its calls raised it: the one guard that
    there is, that of the recalls, raises it again. -/
theorem attempt_unsupported_iff (w : World system σ) (temporal : Bool) (sc : Scenario) (s : σ) :
    ((attempt temporal sc).run w s).result = .error .unsupported ↔
      ∃ c : SystemCall, Event.called (I := system) c (.error .unsupported) ∈
        ((attempt temporal sc).run w s).trace := by
  constructor
  · intro hresult
    obtain ⟨earlier, c, htrace⟩ := attempt_raised w temporal sc s .unsupported hresult
    refine ⟨c, ?_⟩
    rw [htrace]
    exact List.mem_append_right _ (List.mem_singleton.2 rfl)
  · intro h
    obtain ⟨c, hmem⟩ := h
    have hpropagates : (attempt temporal sc).Propagates fun _ e => e = SystemError.unsupported := by
      apply attempt_of_compositional
        (compositional_propagates (I := system) fun _ e => e = SystemError.unsupported)
      intro _ query principal asOf
      refine propagates_tryCatch_perform (I := system) (c := .recall query principal asOf)
        (fun e he => ?_) fun e => ?_
      · rw [he]
      · cases e with
        | unsupported => trivial
        | other typeName text => trivial
    exact hpropagates.result_of_called w s rfl hmem

theorem attemptDiscipline_last
    (hsupp : row.supported = false ↔
      ((attempt temporal sc).run w s).result = .error .unsupported) :
    AttemptDiscipline w temporal sc (n + 1) s [(attempt temporal sc).run w s] row
      ((attempt temporal sc).run w s).trace where
  chained := ⟨rfl, trivial⟩
  trace_eq := by simp
  bounded := by simp
  onward := by simp
  reset := by
    intro o ho
    rw [List.mem_singleton.1 ho]
    exact attempt_resets w temporal sc s
  begins := by
    intro o ho
    rw [List.mem_singleton.1 ho]
    exact attempt_begins w temporal sc s
  raised := by
    intro o ho
    rw [List.mem_singleton.1 ho]
    exact attempt_raised w temporal sc s
  unsupported := by
    rw [hsupp, foundUnsupported_cons]
    simp [not_foundUnsupported_nil]
  declared := by rw [hsupp, attempt_unsupported_iff]

theorem AttemptDiscipline.cons (hfailed : Failed ((attempt temporal sc).run w s))
    (h : AttemptDiscipline w temporal sc n ((attempt temporal sc).run w s).state runs row trace) :
    AttemptDiscipline w temporal sc (n + 1) s ((attempt temporal sc).run w s :: runs) row
      (((attempt temporal sc).run w s).trace ++ trace) where
  chained := ⟨rfl, h.chained⟩
  trace_eq := by rw [h.trace_eq, List.map_cons, List.flatten_cons]
  bounded := Nat.succ_le_succ h.bounded
  onward := by
    intro o ho
    cases runs with
    | nil => cases ho
    | cons next rest =>
      cases List.mem_cons.1 ho with
      | inl heq =>
        rw [heq]
        exact hfailed
      | inr hlater => exact h.onward o hlater
  reset := List.forall_mem_cons.2 ⟨attempt_resets w temporal sc s, h.reset⟩
  begins := List.forall_mem_cons.2 ⟨attempt_begins w temporal sc s, h.begins⟩
  raised := List.forall_mem_cons.2 ⟨attempt_raised w temporal sc s, h.raised⟩
  unsupported := by
    obtain ⟨typeName, text, hresult⟩ := hfailed
    rw [h.unsupported, foundUnsupported_cons, hresult]
    simp
  declared := by
    -- the failed attempt has no such call, or it would have ended with it
    have hnone : ¬ ∃ c : SystemCall, Event.called (I := system) c (.error .unsupported) ∈
        ((attempt temporal sc).run w s).trace := by
      rw [← attempt_unsupported_iff]
      obtain ⟨typeName, text, hresult⟩ := hfailed
      rw [hresult]
      simp
    simp only [List.mem_append, exists_or, hnone, false_or]
    exact h.declared

/-- The loop ends with a row, after attempts one after another. By induction on the attempts that
    are left, each of them as it ends. -/
theorem run_attemptsLeft (w : World system σ) (temporal : Bool) (sc : Scenario) (case : Case)
    (n : ℕ) (s : σ) (lastError : Str) :
    ∃ row runs, ((attemptsLeft temporal case sc n lastError).run w s).result = .ok row ∧
      (row = unsupportedRow case.caseId ∨ row.supported = true ∧ row.caseId = case.caseId) ∧
      (0 < n → runs ≠ []) ∧
      AttemptDiscipline w temporal sc n s runs row
        ((attemptsLeft temporal case sc n lastError).run w s).trace := by
  induction n generalizing s lastError with
  -- no attempt was made here; the caller never starts so
  | zero =>
    refine ⟨errorRow case.caseId lastError, [], rfl, .inr ⟨rfl, rfl⟩, by simp, ?_⟩
    exact ⟨trivial, rfl, Nat.le_refl 0, by simp, by simp, by simp, by simp,
      by simp [errorRow, not_foundUnsupported_nil], by simp [attemptsLeft, errorRow]⟩
  | succ n ih =>
    cases hattempt : ((attempt temporal sc).run w s).result with
    | ok outcome =>
      have hscored := result_scored_of_ok case hattempt
      rw [attemptsLeft, run_tryCatch_of_ok hscored, run_bind_of_ok hattempt, run_pure,
        List.append_nil]
      refine ⟨completedRow case outcome, _, rfl, .inr ⟨rfl, rfl⟩, fun _ => by simp,
        attemptDiscipline_last ?_⟩
      simp [hattempt, completedRow]
    | error e =>
      have hscored : ((attempt temporal sc >>= fun outcome =>
          pure (completedRow case outcome)).run w s).result = .error e :=
        result_scored_of_error hattempt
      rw [attemptsLeft, run_tryCatch_of_error hscored, run_bind_of_error hattempt]
      cases e with
      | unsupported =>
        refine ⟨unsupportedRow case.caseId, [(attempt temporal sc).run w s], rfl, .inl rfl,
          by simp, ?_⟩
        dsimp only
        rw [run_pure, List.append_nil]
        exact attemptDiscipline_last (by simp [hattempt, unsupportedRow])
      | other typeName text =>
        obtain ⟨row, runs, hrow, hshape, -, hdiscipline⟩ :=
          ih ((attempt temporal sc).run w s).state (describe typeName text)
        exact ⟨row, _, hrow, hshape, fun _ => by simp,
          hdiscipline.cons ⟨typeName, text, hattempt⟩⟩

end Loop

/-!
## The rows of a request

From a case to all of them: the loop over the cases cannot fail, so each of them has its piece of
the trace and its row.
-/

theorem run_runCase (m : MemorySystem σ) (case : Case) (s : σ) :
    ∃ row, ((runCase m.capabilities (.temporal ∈ m.capabilities) case).run m.world s).result =
        .ok row ∧
      CaseDiscipline m case row
        ((runCase m.capabilities (.temporal ∈ m.capabilities) case).run m.world s).trace := by
  cases hsc : supportedScenario? m.capabilities case.caseId with
  | none =>
    have hsupp : supported m.capabilities case.caseId = false := by rw [supported, hsc]; rfl
    rw [runCase, hsc]
    refine ⟨unsupportedRow case.caseId, rfl, rfl, fun _ => ⟨rfl, rfl, rfl⟩,
      fun _ => ⟨rfl, rfl⟩, fun h => ?_⟩
    rw [hsupp] at h
    exact absurd h Bool.false_ne_true
  | some sc =>
    -- a supported case is attempted, and its row is that of the last attempt
    have hsupp : supported m.capabilities case.caseId = true := by rw [supported, hsc]; rfl
    rw [runCase_of_supported hsc]
    obtain ⟨row, runs, hrow, hshape, hsome, hdiscipline⟩ :=
      run_attemptsLeft m.world (.temporal ∈ m.capabilities) sc case attempts s []
    refine ⟨row, hrow, ?_, ?_, fun h => ?_,
      fun _ => ⟨sc, s, runs, hsc, hsome (by decide), hdiscipline⟩⟩
    · cases hshape with
      | inl heq => rw [heq]; rfl
      | inr hsame => exact hsame.2
    · intro hunsupported
      cases hshape with
      | inl heq => rw [heq]; exact ⟨rfl, rfl, rfl⟩
      | inr hsame =>
        rw [hsame.1] at hunsupported
        exact absurd hunsupported.symm Bool.false_ne_true
    · rw [hsupp] at h
      exact absurd h.symm Bool.false_ne_true

theorem caseIds_of_eachPass {m : MemorySystem σ} {cases : List Case} {rows : List Row}
    {trace : List (Event system)} (h : EachPass (CaseDiscipline m) cases rows trace) :
    rows.map (·.caseId) = cases.map (·.caseId) := by
  induction h with
  | nil => rfl
  | cons hcase _ ih => rw [List.map_cons, List.map_cons, hcase.sameId, ih]

/-- **One row for each requested case**, in order, and for each of them the calls and the row its
    discipline allows: a case that is not supported makes no call, and one that is begins each
    attempt with a reset and goes on to another only after one that failed. -/
theorem runRequest_disciplined (m : MemorySystem σ) (cases : List Case) (s : σ) :
    ∃ payload, ((runRequest m cases).run m.world s).result = .ok payload ∧
      payload.cases.map (·.caseId) = cases.map (·.caseId) ∧
      EachPass (CaseDiscipline m) cases payload.cases ((runRequest m cases).run m.world s).trace := by
  obtain ⟨rows, hrows, hpasses⟩ := eachPass_mapM (run_runCase m) cases s
  rw [runRequest, run_bind_of_ok hrows, run_pure, List.append_nil]
  exact ⟨_, rfl, caseIds_of_eachPass hpasses, hpasses⟩

end AdversarialCognition
