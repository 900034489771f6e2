import AdversarialCognition.Protocol.Scoring

/-!
# What a correct row rests on

A row that is supported and correct should rest on an attempt in which the seed was written, the
replayed write was taken once and refused once, and the improved price was listed. The driver
drops what the seed writes answer, and maps a refused first write and a failed recall onto
outcomes that cases ask for. So none of the three is enforced: `credit_rests_on_iff` says that a
requirement is met by every system that is credited only where no system can be. What a scenario
can end with is `Possible`, and `hollow` is the system that ends it so with nothing stored.

## One system against all requirements

The law is a statement about all systems, and to refute it for a case one system will do. It is
made to measure from the scenario and the case: its writes are refused, its first recall and its
later ones answer what the outcome needs. That it ends every scenario with an outcome that is
possible and fits the case (`run_scenario_hollow`, `hollowOutcome_correct`) is shown by cases on
the scenario, and that it meets none of the requirements (`not_met_hollow`) by cases on the
requirement. What remains are the cases with which no outcome of the scenario is correct, and of
these the law holds because there is nothing to credit.

The second half of the result is about one simple system, which refuses every write and recalls
nothing, and says which cases it is credited with.
-/

namespace AdversarialCognition

open Py Py.Str Prog

/-!
## What a scenario can end with

The outcomes that a scenario can have over all systems. Recalls and writes may be answered in any
way, so a case is passable if some answer passes it.
-/

/-- The ids of a retry that was stable. -/
def improvedIds : List Str := [lit "price-current", lit "price-improved"]

/-- The outcomes of a scenario, whatever the system answers. -/
def Possible (sc : Scenario) (outcome : CaseOutcome) : Prop :=
  match sc with
  | .forgedSource | .staleProposal | .replayMutation | .replayRestart => outcome.ids = []
  | .idempotentRetry => outcome.allowed = true → outcome.ids = improvedIds
  | .restartReproducible | .orderInvariant => True
  | _ => outcome.allowed = false → outcome.ids = []

/-- Some outcome of the scenario is what the case asks for. -/
def Passable (sc : Scenario) (case : Case) : Prop :=
  ∃ outcome, Possible sc outcome ∧ (completedRow case outcome).correct = true

theorem completedRow_correct_eq_true_iff {case : Case} {outcome : CaseOutcome} :
    (completedRow case outcome).correct = true ↔
      outcome.allowed = case.expectedAllowed ∧ MeetsIds case (clip outcome.ids) :=
  meetsExpectation_iff

section Possible

variable [Runtime] {temporal : Bool}

omit [Runtime] in
theorem recallOutcome_returns (query principal : Str) (asOf : Option Date) :
    (recallOutcome query principal asOf).Returns fun outcome =>
      outcome.allowed = false → outcome.ids = [] := by
  intro r
  cases r with
  | ok ids => exact returns_pure fun h => absurd h (Bool.false_ne_true ∘ Eq.symm)
  | error e =>
    cases e with
    | unsupported => exact returns_raise _
    | other typeName text => exact returns_pure fun _ => rfl

/-- **A scenario ends with a possible outcome**, if it ends with one, whatever it is answered. -/
theorem scenario_returns (sc : Scenario) : (scenario temporal sc).Returns (Possible sc) := by
  cases sc with
  | forgedSource => exact returns_bind fun done => returns_pure rfl
  | staleProposal => exact returns_bind fun done => returns_pure rfl
  | replayMutation =>
    exact returns_bind fun first =>
      returns_ite (returns_pure rfl) (returns_bind fun second => returns_pure rfl)
  | replayRestart =>
    exact returns_bind fun first => returns_ite (returns_pure rfl)
      (returns_bind fun _ => returns_bind fun second => returns_pure rfl)
  | idempotentRetry =>
    refine returns_bind fun first => returns_bind fun second => returns_bind fun result => ?_
    exact returns_pure fun hstable => if_pos hstable
  | forgetDerived =>
    exact returns_bind fun _ => returns_bind fun forgotten =>
      returns_ite (returns_pure fun _ => rfl)
        (returns_bind fun _ => recallOutcome_returns _ _ _)
  | restartReproducible =>
    exact returns_bind fun before => returns_bind fun _ => returns_bind fun after =>
      returns_pure trivial
  | orderInvariant =>
    exact returns_bind fun first => returns_bind fun second => returns_pure trivial
  -- what is left is a recall, behind a write or not
  | injectionContained => exact returns_bind fun _ => recallOutcome_returns _ _ _
  | retrievalCurrent => exact recallOutcome_returns _ _ _
  | temporalHistory => exact recallOutcome_returns _ _ _
  | abstainUnknown => exact recallOutcome_returns _ _ _
  | isolationTenant => exact recallOutcome_returns _ _ _
  | isolationClearance => exact recallOutcome_returns _ _ _
  | purposeDenial => exact recallOutcome_returns _ _ _
  | malformedEmpty => exact recallOutcome_returns _ _ _
  | oversizedQuery => exact recallOutcome_returns _ _ _
  | confusableQuery => exact recallOutcome_returns _ _ _

end Possible

/-!
## What it should rest on

The requirements that a reader of a correct row would take for granted, as properties of the run
of the attempt that counts: that the seed was written, that a replayed write was taken once and
then refused, and that the improved price was listed once.
-/

def writeAnswer? : Event system → Option (Except SystemError Bool)
  | .called (.remember _) r => some r
  | _ => none

def recallAnswer? : Event system → Option (Except SystemError (List Str))
  | .called (.recall _ _ _) r => some r
  | _ => none

/-- What a reader of a correct row would take for granted. -/
inductive Requirement
  /-- Every seed write reported success. -/
  | seeded
  /-- The replayed write was taken the first time and refused the second. -/
  | replayed
  /-- The recall after the improves succeeded and listed the improved price once. -/
  | listed
  deriving DecidableEq

/-- The scenarios the requirement is about. The seed is written in all of them. -/
def Requirement.Applies : Requirement → Scenario → Prop
  | .seeded, _ => True
  | .replayed, sc => sc = .replayMutation ∨ sc = .replayRestart
  | .listed, sc => sc = .idempotentRetry

section Credit

variable [Runtime] {σ : Type}

/-- The run of an attempt's scenario. -/
def scenarioRun (w : World system σ) (temporal : Bool) (sc : Scenario) (t : σ) :
    Outcome system σ CaseOutcome :=
  (scenario temporal sc).run w ((seeding temporal).run w t).state

/-- The attempt that starts at `t` meets the requirement. -/
def Requirement.Met (w : World system σ) (temporal : Bool) (sc : Scenario) (t : σ) :
    Requirement → Prop
  | .seeded => ∀ r ∈ ((seeding temporal).run w t).trace.filterMap writeAnswer?, r = .ok true
  | .replayed =>
      (scenarioRun w temporal sc t).trace.filterMap writeAnswer? = [.ok true, .ok false]
  | .listed => ∃ ids, (scenarioRun w temporal sc t).trace.filterMap recallAnswer? = [.ok ids] ∧
      ids.count (lit "price-improved") = 1

/-- The case's row is supported and correct, and the attempt that starts at `t` is the one
    that counts. -/
structure Credited (capabilities : Finset Capability) (temporal : Bool) (case : Case)
    (sc : Scenario) (w : World system σ) (s t : σ) : Prop where
  scenario : supportedScenario? capabilities case.caseId = some sc
  attempt : ∃ outcome, counted w temporal sc attempts s = some (t, outcome)
  row : ∃ row, ((runCase capabilities temporal case).run w s).result = .ok row ∧
    row.supported = true ∧ row.correct = true

/-- Whatever system the case is run against, credit rests on the requirement. -/
def RestsOn (capabilities : Finset Capability) (temporal : Bool) (case : Case)
    (r : Requirement) : Prop :=
  ∀ (σ : Type) (w : World system σ) (s t : σ) (sc : Scenario),
    Credited capabilities temporal case sc w s t → r.Applies sc → r.Met w temporal sc t

variable {w : World system σ} {capabilities : Finset Capability} {temporal : Bool} {case : Case}
  {sc : Scenario} {s t : σ} {outcome : CaseOutcome}

/-- An attempt that ends with an outcome has it from its scenario. -/
theorem scenarioRun_of_attempt (h : ((attempt temporal sc).run w t).result = .ok outcome) :
    (scenarioRun w temporal sc t).result = .ok outcome := by
  rw [attempt_eq_seeding] at h
  obtain ⟨_, -, hscenario⟩ := result_bind_eq_ok_iff.mp h
  exact hscenario

/-- **A credited case can be passed.** -/
theorem Credited.passable (h : Credited capabilities temporal case sc w s t) :
    Passable sc case := by
  obtain ⟨outcome, hcounted⟩ := h.attempt
  obtain ⟨row, hrow, -, hcorrect⟩ := h.row
  rw [runCase_of_counted h.scenario hcounted] at hrow
  cases hrow
  refine ⟨outcome, ?_, hcorrect⟩
  exact (scenario_returns sc).of_run (scenarioRun_of_attempt (attempt_of_counted hcounted))

end Credit

/-!
## A system that stores nothing

For each passable case there is a system that passes it with nothing stored. It answers recalls
with the expected ids, twice over, so that the cut of the list does no harm.
-/

/-- Every write is refused, except one that carries a nonce if `allowed`; so is a `forget`
    and an `improve` unless `allowed`. The first recall after a reset answers `first`, the
    ones after it `later`. The state counts the recalls. -/
def hollow (allowed : Bool) (first later : Except SystemError (List Str)) : World system ℕ
  | _, .reset => (.ok (), 0)
  | n, .remember args => (.ok (args.nonce.isSome && allowed), n)
  | n, .recall _ _ _ => (if n = 0 then first else later, n + 1)
  | n, .forget _ _ => (.ok allowed, n)
  | n, .improve _ _ _ _ _ _ => (.ok allowed, n)
  | n, .restart => (.ok (), n)

section Hollow

variable {allowed : Bool} {first later : Except SystemError (List Str)} {temporal : Bool}

theorem run_seedEntry_hollow (entry : SeedEntry) (n : ℕ) :
    (seedEntry temporal entry).run (hollow allowed first later) n =
      ⟨.ok (), n, [.called (.remember (seedArgs temporal entry)) (.ok false)]⟩ := by
  have hanswer : hollow allowed first later n (.remember (seedArgs temporal entry)) =
      (.ok false, n) := by
    simp [hollow, seedArgs_nonce]
  rw [seedEntry, run_bind, run_perform, hanswer]
  rfl

theorem run_seed_hollow (entries : List SeedEntry) (n : ℕ) :
    (entries.forM (seedEntry temporal)).run (hollow allowed first later) n =
      ⟨.ok (), n, entries.map fun entry =>
        .called (.remember (seedArgs temporal entry)) (.ok false)⟩ := by
  induction entries with
  | nil => rfl
  | cons entry entries ih =>
    show (seedEntry temporal entry >>= fun _ => entries.forM (seedEntry temporal)).run _ n = _
    rw [run_bind, run_seedEntry_hollow]
    simp only [Outcome.andThen, ih]
    rfl

theorem run_seeding_hollow (n : ℕ) :
    (seeding temporal).run (hollow allowed first later) n =
      ⟨.ok (), 0, .called .reset (.ok ()) :: seedCorpus.map fun entry =>
        .called (.remember (seedArgs temporal entry)) (.ok false)⟩ := by
  rw [seeding, run_bind, run_perform]
  simp only [Outcome.andThen, hollow, seed, run_seed_hollow]
  rfl

theorem not_seeded_hollow [Runtime] (sc : Scenario) (n : ℕ) :
    ¬ Requirement.Met (hollow allowed first later) temporal sc n .seeded := by
  intro hmet
  have hrefused : (.ok false : Except SystemError Bool) ∈
      ((seeding temporal).run (hollow allowed first later) n).trace.filterMap writeAnswer? := by
    rw [run_seeding_hollow]
    exact List.mem_cons_self
  exact absurd (Except.ok.inj (hmet _ hrefused)) Bool.false_ne_true

end Hollow

/-- The ids that are recalled: the expected ones, twice over. -/
def doubled (case : Case) : List Str := case.expectedIds ++ case.expectedIds

/-- The expected ids, twice over, meet every case that any cut list meets. Twice, so that an
    improved price is not listed once. -/
theorem meets_clip_doubled {case : Case} {ids : List Str} (h : MeetsIds case (clip ids)) :
    MeetsIds case (clip (doubled case)) := by
  have hshort := short_of_take_clip h.expected
  have hclip : ∀ id ∈ clip (doubled case), id ∈ case.expectedIds := by
    intro id hid
    obtain ⟨whole, hwhole, rfl⟩ := mem_clip.mp hid
    have hexpected : whole ∈ case.expectedIds := by
      simpa [doubled] using List.mem_of_mem_take hwhole
    rwa [List.take_of_length_le (hshort whole hexpected)]
  refine ⟨?_, fun habs => ?_, fun id hforb hid => ?_⟩
  · rw [take_clip (length_le_of_take_clip h.expected), doubled, List.take_left,
      map_take_eq_self hshort]
  · have hnil := h.abstains habs
    rw [← clip_eq_nil_iff, doubled, ← h.expected, hnil]
    simp [clip]
  · refine h.forbidden id hforb ?_
    have hmem := hclip id hid
    rw [← h.expected] at hmem
    exact List.mem_of_mem_take hmem

/-- The system that passes the case with nothing stored. -/
def hollowFor (sc : Scenario) (case : Case) : World system ℕ :=
  hollow case.expectedAllowed
    (if case.expectedAllowed = (sc != .idempotentRetry) then .ok (doubled case)
      else .error (.other [] []))
    (.ok (doubled case))

/-- What the hollow system brings a scenario to. -/
def hollowOutcome (sc : Scenario) (case : Case) : CaseOutcome where
  allowed := case.expectedAllowed
  ids :=
    match sc with
    | .forgedSource | .staleProposal | .replayMutation | .replayRestart => []
    | .idempotentRetry => if case.expectedAllowed then improvedIds else doubled case
    | .restartReproducible | .orderInvariant => doubled case
    | _ => if case.expectedAllowed then doubled case else []

theorem hollowOutcome_correct {sc : Scenario} {case : Case} (h : Passable sc case) :
    (completedRow case (hollowOutcome sc case)).correct = true := by
  obtain ⟨outcome, hpossible, hcorrect⟩ := h
  obtain ⟨hallowed, hmeets⟩ := completedRow_correct_eq_true_iff.mp hcorrect
  refine completedRow_correct_eq_true_iff.mpr ⟨rfl, ?_⟩
  have hnil : outcome.ids = [] → MeetsIds case (clip []) := fun hids => hids ▸ hmeets
  have hdoubled := meets_clip_doubled hmeets
  have hrecall : (outcome.allowed = false → outcome.ids = []) →
      MeetsIds case (clip (if case.expectedAllowed then doubled case else [])) := by
    intro hids
    cases hexp : case.expectedAllowed with
    | true => exact hdoubled
    | false => exact hnil (hids (hallowed.trans hexp))
  cases sc with
  | forgedSource => exact hnil hpossible
  | staleProposal => exact hnil hpossible
  | replayMutation => exact hnil hpossible
  | replayRestart => exact hnil hpossible
  | idempotentRetry =>
    show MeetsIds case (clip (if case.expectedAllowed then improvedIds else doubled case))
    cases hexp : case.expectedAllowed with
    | true => exact hpossible (hallowed.trans hexp) ▸ hmeets
    | false => exact hdoubled
  | restartReproducible => exact hdoubled
  | orderInvariant => exact hdoubled
  | _ => exact hrecall hpossible

section Runs

variable [Runtime] {temporal : Bool} {capabilities : Finset Capability} {sc : Scenario} {case : Case}

theorem run_scenario_hollow (sc : Scenario) (case : Case) :
    ((scenario temporal sc).run (hollowFor sc case) 0).result = .ok (hollowOutcome sc case) := by
  have hsame : (doubled case == doubled case) = true := beq_self_eq_true _
  unfold hollowFor hollowOutcome
  cases case.expectedAllowed with
  | true =>
    cases sc with
    | restartReproducible =>
      show Except.ok (CaseOutcome.mk (doubled case == doubled case) (doubled case)) = _
      rw [hsame]
    | orderInvariant =>
      show Except.ok (CaseOutcome.mk (doubled case == doubled case) (doubled case)) = _
      rw [hsame]
    | _ => rfl
  | false =>
    cases sc with
    | _ => rfl

omit [Runtime] in
theorem run_seeding_hollowFor (n : ℕ) :
    (seeding temporal).run (hollowFor sc case) n =
      ⟨.ok (), 0, .called .reset (.ok ()) :: seedCorpus.map fun entry =>
        .called (.remember (seedArgs temporal entry)) (.ok false)⟩ :=
  run_seeding_hollow n

theorem scenarioRun_hollow (n : ℕ) :
    scenarioRun (hollowFor sc case) temporal sc n =
      (scenario temporal sc).run (hollowFor sc case) 0 := by
  rw [scenarioRun, run_seeding_hollowFor]

theorem credited_hollow (hsc : supportedScenario? capabilities case.caseId = some sc)
    (h : Passable sc case) : Credited capabilities temporal case sc (hollowFor sc case) 0 0 := by
  have hattempt : ((attempt temporal sc).run (hollowFor sc case) 0).result =
      .ok (hollowOutcome sc case) := by
    rw [attempt_eq_seeding, run_bind, run_seeding_hollowFor]
    exact run_scenario_hollow sc case
  have hcounted : counted (hollowFor sc case) temporal sc attempts 0 =
      some (0, hollowOutcome sc case) := counted_of_ok hattempt
  exact ⟨hsc, ⟨_, hcounted⟩, _, runCase_of_counted hsc hcounted, rfl, hollowOutcome_correct h⟩

theorem not_met_hollow {r : Requirement} (hr : r.Applies sc) :
    ¬ r.Met (hollowFor sc case) temporal sc 0 := by
  cases r with
  | seeded => exact not_seeded_hollow sc 0
  | replayed =>
    show (scenarioRun (hollowFor sc case) temporal sc 0).trace.filterMap writeAnswer? ≠ _
    rw [scenarioRun_hollow]
    unfold hollowFor
    cases hr with
    | inl hsc =>
      subst hsc
      cases case.expectedAllowed with
      | true => exact fun h => nomatch h
      | false => exact fun h => nomatch h
    | inr hsc =>
      subst hsc
      cases case.expectedAllowed with
      | true => exact fun h => nomatch h
      | false => exact fun h => nomatch h
  | listed =>
    cases hr
    intro hmet
    obtain ⟨ids, hids, hcount⟩ := hmet
    rw [scenarioRun_hollow] at hids
    unfold hollowFor at hids
    cases hallowed : case.expectedAllowed with
    | true =>
      rw [hallowed] at hids
      exact nomatch hids
    | false =>
      rw [hallowed] at hids
      -- the only recall lists everything twice over
      have hdoubled : doubled case = ids := Except.ok.inj (List.cons.inj hids).1
      rw [← hdoubled, doubled, List.count_append] at hcount
      omega

theorem rests_on_iff (r : Requirement) :
    RestsOn capabilities temporal case r ↔
      ∀ sc, supportedScenario? capabilities case.caseId = some sc → r.Applies sc →
        ¬ Passable sc case := by
  constructor
  · intro hrests sc hsc hr hpass
    exact not_met_hollow hr (hrests ℕ _ 0 0 sc (credited_hollow hsc hpass) hr)
  · intro hnone σ w s t sc hcredit hr
    exact absurd hcredit.passable (hnone sc hcredit.scenario hr)

end Runs

/-!
## The system that refuses every write and recalls nothing

One system that is the same for all cases, and the cases that it passes.
-/

/-- The system that refuses every write and recalls nothing, and never raises. -/
def mute : World system ℕ := hollow false (.ok []) (.ok [])

/-- The scenarios that count an empty recall as allowed. -/
def allowsSilence : Scenario → Bool
  | .forgedSource | .staleProposal | .replayMutation | .replayRestart | .idempotentRetry
  | .forgetDerived => false
  | _ => true

section Mute

variable [Runtime] {temporal : Bool} {capabilities : Finset Capability} {case : Case}

theorem counted_mute (sc : Scenario) (s : ℕ) :
    counted mute temporal sc attempts s = some (s, ⟨allowsSilence sc, []⟩) := by
  have hscenario : ((scenario temporal sc).run mute 0).result = .ok ⟨allowsSilence sc, []⟩ := by
    cases sc with
    | _ => rfl
  refine counted_of_ok ?_
  rw [attempt_eq_seeding, run_bind, mute, run_seeding_hollow]
  exact hscenario

theorem mute_correct_iff :
    (∃ row, ((runCase capabilities temporal case).run mute 0).result = .ok row ∧
        row.supported = true ∧ row.correct = true) ↔
      ∃ sc, supportedScenario? capabilities case.caseId = some sc ∧
        case.expectedAllowed = allowsSilence sc ∧ MeetsIds case [] := by
  constructor
  · intro hrow
    obtain ⟨row, hrow, -, hcorrect⟩ := hrow
    obtain ⟨sc, t, outcome, hsc, hcounted, rfl⟩ := counted_of_correct hrow hcorrect
    rw [counted_mute] at hcounted
    cases hcounted
    obtain ⟨hallowed, hmeets⟩ := completedRow_correct_eq_true_iff.mp hcorrect
    exact ⟨sc, hsc, hallowed.symm, hmeets⟩
  · intro hcase
    obtain ⟨sc, hsc, hallowed, hmeets⟩ := hcase
    refine ⟨_, runCase_of_counted hsc (counted_mute sc 0), rfl, ?_⟩
    exact completedRow_correct_eq_true_iff.mpr ⟨hallowed.symm, hmeets⟩

/-- **Credit rests on a requirement only where there is no credit to be had**, and the system that
    refuses everything has its share of it. For each requirement there is a system that does not
    meet it and is credited all the same, wherever the case is supported and some outcome of its
    scenario passes it. -/
theorem credit_rests_on_iff :
    (∀ r, RestsOn capabilities temporal case r ↔
        ∀ sc, supportedScenario? capabilities case.caseId = some sc → r.Applies sc →
          ¬ Passable sc case) ∧
      ((∃ row, ((runCase capabilities temporal case).run mute 0).result = .ok row ∧
          row.supported = true ∧ row.correct = true) ↔
        ∃ sc, supportedScenario? capabilities case.caseId = some sc ∧
          case.expectedAllowed = allowsSilence sc ∧ MeetsIds case []) :=
  ⟨rests_on_iff, mute_correct_iff⟩

end Mute

section

attribute [local instance] cpython

/-- The replay case as it is requested. -/
def replayCase : Case := { caseId := "replay-mutation", expectedAllowed := false }

/-- Every write is refused, and the replay case is passed: a write that was never taken was not
    replayed either. -/
theorem refused_writes_credited :
    Credited {.replayProtection} false replayCase .replayMutation mute 0 0 ∧
      ¬ Requirement.Met mute false .replayMutation 0 .seeded ∧
      ¬ Requirement.Met mute false .replayMutation 0 .replayed := by
  have hsc : supportedScenario? {.replayProtection} replayCase.caseId = some .replayMutation := by
    decide
  have hcounted : counted mute false .replayMutation attempts 0 = some (0, ⟨false, []⟩) :=
    counted_mute .replayMutation 0
  refine ⟨⟨hsc, ⟨_, hcounted⟩, _, runCase_of_counted hsc hcounted, rfl, by decide⟩,
    not_seeded_hollow _ 0, ?_⟩
  intro hmet
  exact nomatch hmet

end

end AdversarialCognition
