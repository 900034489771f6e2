import AdversarialCognition.Harness.Failures
import AdversarialCognition.Report.Wire

/-!
# The wire of the agent-memory track

The driver of `agent_harness/driver.py` prints its payload as the others do, with the attestation
of the harness in it. Under the second version of the benchmark this is what makes its system an
agent loop: a pass that raises nothing is reported with all its rows and with the attestation it
ran under (`runTrack_reported`).

## What differs from the other drivers

A row has no receipt. The attestation is an object between the header and the rows, with the
settings of the loop and the digest of its prompts. Under the first version it would not be looked
at, so the result is about the second.

The driver may raise: a backend that raises in a preparation, or a model that says what the loop
cannot read, ends the pass without a payload, and then there is nothing to report here. The result
is about the passes that return, over all worlds, and so over all models and backends.
-/

namespace AdversarialCognition.Report

open Py Py.Str Json Prog

/-!
## What is printed

The payload of the agent-memory driver, member by member and in the order of the source.
-/

/-- `harness_attestation`, as it is printed. -/
def attestationMembers [Runtime] (harness : HarnessAttestation) (promptDigest : Str) : List (Str × Json) := [
  (lit "model", .str harness.model),
  (lit "seed", .int harness.seed),
  (lit "temperature", .int harness.temperature),
  (lit "num_ctx", .int harness.numCtx),
  (lit "max_turns", .int harness.maxTurns),
  (lit "prompt_digest", .str promptDigest),
  (lit "tool_contract", .str harness.toolContract)]

/-- What the payload attests, between the header and the rows. -/
def trackAttested [Runtime] (payload : TrackPayload) (promptDigest : Str) : List (Str × Json) := [
  (lit "harness", .obj (attestationMembers payload.harness promptDigest)),
  (lit "authorization_mechanism", .str payload.authorizationMechanism),
  (lit "authorization_check", .str (checkText payload.authorizationCheck))]

/-- `latency_us` of a row. -/
def trackLatencyOf (clock : Str → Str) (row : TrackRow) : Str :=
  if row.supported then clock row.caseId else lit "0.0"

/-- A row of `run_case`, as it is printed. -/
def trackRowMembers (clock : Str → Str) (row : TrackRow) : List (Str × Json) := [
  (lit "case_id", .str row.caseId),
  (lit "correct", .bool row.correct),
  (lit "allowed", .bool row.allowed),
  (lit "returned_ids", strs row.returnedIds),
  (lit "latency_us", .float (trackLatencyOf clock row)),
  (lit "supported", .bool row.supported)]

/-- What the driver prints. -/
def printTrackPayload [Runtime] (clock : Str → Str) (promptDigest : Str)
    (payload : TrackPayload) : Str :=
  printLine <| .obj <| payloadMembers payload.adapterVersion payload.interface
    (trackAttested payload promptDigest)
    (payload.cases.map fun row => .obj (trackRowMembers clock row))

/-- What the harness has of a row. It has no receipt. -/
def reportedTrack (clock : Str → Str) (case : SuiteCase) (row : TrackRow) : CaseOutcome where
  caseId := case.caseId
  category := case.category
  correct := row.correct
  allowed := row.allowed
  returnedIds := row.returnedIds.map joined
  receipt := []
  latencyUs := trackLatencyOf clock row
  supported := row.supported

/-!
## The rows of a pass

What is known of the rows before anything is printed. A row that is not supported says nothing
else, and one that is supported is of a case that the track can express.
-/

section Rows

variable [Runtime] [Decoder] {τ : Type} {capabilities : Finset Capability}

/-- The row of a case: nothing is claimed of one that is not supported, and one that is can be
    expressed in the track. -/
structure TrackRowLaw (capabilities : Finset Capability) (case : Case) (row : TrackRow) : Prop where
  sameId : row.caseId = case.caseId
  blank : row.supported = false →
    row.correct = false ∧ row.allowed = false ∧ row.returnedIds = []
  expressible : row.supported = true →
    ∃ sc, trackSupported? capabilities case.caseId = some sc ∧ expressible sc = true

theorem runTrackCase_lawful (track : Track τ) (case : Case) :
    (runTrackCase capabilities track case).Gives fun _ out =>
      TrackRowLaw capabilities case out.1 := by
  refine (runTrackCase_gives track case).mono fun ns out h => ?_
  rcases h with ⟨-, -, rfl⟩ | ⟨sc, probes, result, outcome, hsc, -, -, -, -, hrow⟩
  · exact ⟨rfl, fun _ => ⟨rfl, rfl, rfl⟩, fun hsupported => absurd hsupported Bool.false_ne_true⟩
  · rw [hrow]
    exact ⟨rfl, fun hfalse => absurd hfalse.symm Bool.false_ne_true,
      fun _ => ⟨sc, hsc, expressible_of_trackSupported? hsc⟩⟩

theorem runTrackCases_lawful (cases : List Case) (track : Track τ) :
    (runTrackCases capabilities track cases).Gives fun _ out =>
      List.Forall₂ (TrackRowLaw capabilities) cases out.1 := by
  induction cases generalizing track with
  | nil => exact gives_pure .nil
  | cons case cases ih =>
    exact (runTrackCase_lawful track case).bind fun ns out hrow =>
      (ih out.2).bind fun ms rest hrest => gives_pure (.cons hrow hrest)

/-- What a pass returns: the header, which is the same for every backend but for its name and
    version, and a row for each case. -/
structure TrackPayloadLaw (backend : AgentMemoryBackend) (model : Str) (cases : List Case)
    (payload : TrackPayload) : Prop where
  adapterVersion : payload.adapterVersion = backend.name ++ lit "-" ++ backend.version
  interface : payload.interface = lit "agent-loop"
  harness : payload.harness = { model := model }
  rows : List.Forall₂ (TrackRowLaw backend.capabilities) cases payload.cases

theorem runTrack_lawful (backend : AgentMemoryBackend) (model : Str) (cases : List Case) :
    (runTrack (τ := τ) backend model cases).Gives fun _ payload =>
      TrackPayloadLaw backend model cases payload :=
  (fresh_gives _).bind fun _ track _ =>
    (runTrackCases_lawful cases track).bind fun _ _ hrows =>
      gives_pure ⟨rfl, rfl, rfl, hrows⟩

end Rows

/-!
## What is reported

The general rule for drivers, with the parts of this one: its rows tell their outcomes, its
attestation has every key that is asked for, and all of it is flat enough to be read back. The
pass of the example asks a model that is down.
-/

section Run

variable [Runtime] [Numerics] {clock : Str → Str} {suite : List SuiteCase}

theorem tells_trackRowMembers {case : SuiteCase} {row : TrackRow} (hid : row.caseId = case.caseId)
    (hcase : case.Scalar) :
    Tells (joinStrings (.obj (trackRowMembers clock row))) case (reportedTrack clock case row) := by
  have hjoined : joined row.caseId = case.caseId := by
    rw [hid, joined_of_unpaired (unpaired_of_encodable hcase.caseId)]
  rw [joinStrings, trackRowMembers]
  refine tells_of_items rfl rfl ?_ rfl rfl ?_ rfl rfl rfl
  · show some (Json.str (joined row.caseId)) = _
    rw [hjoined]
  · show some (joinStrings (strs row.returnedIds)) = _
    rw [joinStrings_strs]
    rfl

omit [Runtime] in
theorem sendable_trackRowMembers {row : TrackRow} (hclock : FloatText (trackLatencyOf clock row)) :
    Sendable (.obj (trackRowMembers clock row)) :=
  ⟨by simp [trackRowMembers], unpaired_lit _, trivial, unpaired_lit _, trivial, unpaired_lit _,
    trivial, unpaired_lit _, sendable_strs _, unpaired_lit _, hclock, unpaired_lit _, trivial,
    trivial⟩

omit [Numerics] in
theorem missingKeys_attestation (harness : HarnessAttestation) (promptDigest : Str) :
    missingKeys (joinMembers (attestationMembers harness promptDigest)) = [] := by
  rfl

omit [Numerics] in
/-- **The attestation is accepted**, with its strings joined. -/
theorem parseHarness_track {version interface : Str} {payload : TrackPayload} {promptDigest : Str}
    {benchmarkVersion : ℕ} (hversion : 2 ≤ benchmarkVersion) (rows : List Json) :
    parseHarness (.obj (payloadMembers version interface
        (joinMembers (trackAttested payload promptDigest)) rows)) (lit "agent-loop")
        benchmarkVersion =
      .ok (some (keepHarness (joinMembers (attestationMembers payload.harness promptDigest)))) := by
  have hharness : getOr (.obj (payloadMembers version interface
      (joinMembers (trackAttested payload promptDigest)) rows)) "harness" .null =
        .ok (.obj (joinMembers (attestationMembers payload.harness promptDigest))) := rfl
  unfold parseHarness
  rw [hharness]
  simp only [Bind.bind, Except.bind]
  rw [if_neg (Nat.not_lt.2 hversion), if_neg (not_not.2 rfl)]
  rw [missingKeys_attestation]
  rfl

omit [Numerics] in
theorem depth_trackAttested_le (payload : TrackPayload) (promptDigest : Str) :
    depthMembers (trackAttested payload promptDigest) ≤ 8 := by
  simp [trackAttested, attestationMembers, depth, depthMembers]

omit [Runtime] [Numerics] in
theorem depth_trackRowMembers_le (row : TrackRow) :
    (Json.obj (trackRowMembers clock row)).depth ≤ 8 := by
  simp [trackRowMembers, depth, depthMembers]

/-- What is attested can be sent, whatever the name of the model. -/
theorem sendable_attestation (model promptDigest : Str) :
    Sendable (.obj (attestationMembers { model := model } promptDigest)) := by
  have hint : ∀ n : ℕ, n < 10 ^ 4 → Sendable (.int n) :=
    fun n hn => printable_ofNat (show 4 ≤ 4300 by omega) hn
  refine ⟨by simp [attestationMembers], unpaired_lit _, trivial, unpaired_lit _, ?_,
    unpaired_lit _, ?_, unpaired_lit _, ?_, unpaired_lit _, ?_, unpaired_lit _, trivial,
    unpaired_lit _, trivial, trivial⟩
  · exact hint 7 (by omega)
  · exact hint 0 (by omega)
  · exact hint 8192 (by omega)
  · exact hint maxTurns (by decide)

omit [Runtime] [Numerics] in
theorem encodable_promptMaterial : Encodable promptMaterial := by
  have hsystem : Encodable systemPrompt := by
    rw [systemPrompt]
    exact encodable_lit _
  have hrecall : Encodable recallHead := by
    rw [recallHead]
    exact encodable_lit _
  have hforget : Encodable forgetHead ∧ Encodable forgetTail := by
    rw [forgetHead, forgetTail]
    exact ⟨encodable_lit _, encodable_lit _⟩
  rw [promptMaterial]
  apply encodable_join
  refine List.forall_mem_cons.2 ⟨hsystem, List.forall_mem_cons.2 ⟨?_, List.forall_mem_cons.2
    ⟨encodable_lit _, List.forall_mem_cons.2 ⟨?_, List.forall_mem_nil _⟩⟩⟩⟩
  · exact encodable_append.2 ⟨hrecall, encodable_lit _⟩
  · exact encodable_append.2 ⟨encodable_append.2 ⟨hforget.1, encodable_lit _⟩, hforget.2⟩

/-- **A pass that raises nothing is reported as an agent loop**, with all its rows and with the
    attestation of the harness it ran under. The attestation has all the keys that version 2
    requires, and the rows are read as they were printed, in the order of the suite. -/
theorem runTrack_reported {τ σ : Type} {repeats : ℤ} (w : World (harness τ) σ)
    (backend : AgentMemoryBackend) (model : Str) {s : σ}
    (hsuite : ∀ case ∈ suite, case.Scalar) (hdistinct : (suiteIds suite).Nodup)
    (hrepeats : repeats.natAbs < 10 ^ 4300)
    (hclock : ∀ row, FloatText (trackLatencyOf clock row)) {benchmarkVersion : ℕ}
    (hversion : 2 ≤ benchmarkVersion) (name commandVariable : Str) {payload : TrackPayload}
    (hrun : ((runTrack (τ := τ) backend model (suite.map (·.toCase))).run w s).result =
      .ok payload) :
    readRequest? (externalRequest suite repeats) = some (suite.map (·.toCase)) ∧
      TrackPayloadLaw backend model (suite.map (·.toCase)) payload ∧
      ∃ promptDigest, digest promptMaterial = .ok promptDigest ∧
        executeExternal name commandVariable suite benchmarkVersion
            (.printed (printTrackPayload clock promptDigest payload)) =
          .ok { system := name,
                adapterVersion := (joined (backend.name ++ lit "-" ++ backend.version)).take 64,
                status := .executed, interface := lit "agent-loop",
                outcomes := List.zipWith (reportedTrack clock) suite payload.cases,
                harness := some (keepHarness
                  (joinMembers (attestationMembers { model := model } promptDigest))) } := by
  have hlaw := (runTrack_lawful backend model (suite.map (·.toCase))).of_run hrun
  obtain ⟨promptDigest, hdigest⟩ := digest_ok_iff.2 encodable_promptMaterial
  have hids : payload.cases.map (·.caseId) = suiteIds suite := by
    rw [map_eq_map_of_forall₂ hlaw.rows fun case row hrow => hrow.sameId, List.map_map]
    rfl
  refine ⟨readRequest?_externalRequest hsuite hrepeats, hlaw, promptDigest, hdigest, ?_⟩
  -- what is cut on the way is short enough to stay whole
  have hloop : (joined payload.interface).take 32 = lit "agent-loop" := by
    rw [hlaw.interface, joined_of_unpaired (unpaired_lit _)]
    rfl
  have hnodup : ([lit "adapter_version", lit "interface"] ++
      (trackAttested payload promptDigest).map Prod.fst ++ [lit "cases"]).Nodup := by
    simp [trackAttested]
  rw [← hlaw.adapterVersion, ← hlaw.harness, ← hloop]
  apply executeExternal_rows tells_trackRowMembers hids hsuite hdistinct hnodup
  · rw [trackAttested, hlaw.harness]
    exact ⟨unpaired_lit _, sendable_attestation model promptDigest, unpaired_lit _, trivial, unpaired_lit _,
      trivial, trivial⟩
  · exact fun row => sendable_trackRowMembers (hclock row)
  · exact depth_trackAttested_le payload promptDigest
  · exact depth_trackRowMembers_le
  · intro rows
    rw [hloop]
    exact parseHarness_track hversion rows

end Run

section Examples

attribute [local instance] cpython Numerics.verbatim

theorem floatText_track (row : TrackRow) : FloatText (trackLatencyOf steadyClock row) := by
  unfold trackLatencyOf steadyClock
  split
  · exact .inr (.inr (.inr rfl))
  · exact .inr (.inr (.inr rfl))

/-- A backend that claims isolation, and so is probed for it. -/
def isolatingBackend : AgentMemoryBackend := { capabilities := {.isolation} }

/-- The probe is refused, before the cases and before the only one. With the model down the case is
    put to it all the same: its operation fails, and the row stands as supported. -/
theorem ends_runTrack_down : ∃ result payload, result.Failed ∧
    payload.cases.map (·.supported) = [true] ∧
    Ends (down []) [false, false] (runTrack (τ := Unit) isolatingBackend (lit "llama3.1:latest")
        (tenantSuite.map (·.toCase)))
      [.probe false, .turn (suiteCase "isolation-tenant").toCase, .probe false, .operation result]
      payload [] := by
  have hclaims : ({.isolation} : Finset Capability) ∩ authorizationCapabilities ≠ ∅ := by decide
  have hsc : trackSupported? {.isolation} (suiteCase "isolation-tenant").caseId =
      some .isolationTenant := by
    decide
  have hfresh := ends_fresh_down_claiming [] [false] hclaims false
  have hagain := ends_fresh_down_claiming [] [] hclaims false
  have hvoided : (judged false).voided (suiteCase "isolation-tenant").caseId = false := by
    decide
  obtain ⟨result, hfailed, hcase⟩ := ends_runTrackCase_down hsc hvoided (hagain _)
  have hcases : Ends (down []) [false] (runTrackCases {.isolation} (judged false)
      (tenantSuite.map (·.toCase)))
      [.turn (suiteCase "isolation-tenant").toCase, .probe false, .operation result]
      ([trackRow (suiteCase "isolation-tenant").toCase (true, [])], judged false) [] :=
    hcase.bind ((ends_pure _).bind (ends_pure _))
  refine ⟨result, ?_, hfailed, ?_, (hfresh {}).bind (hcases.bind ?_)⟩
  case refine_3 => exact ends_pure _
  rfl

/-- A model that is down is reported, as an agent loop whose case is supported. -/
theorem runTrack_reported_down : ∃ payload promptDigest report,
    executeExternal (lit "down") (lit "DOWN_CMD") tenantSuite 2
        (.printed (printTrackPayload steadyClock promptDigest payload)) = .ok report ∧
      report.status = .executed ∧ report.outcomes.map (·.supported) = [true] ∧
      ∃ result, result.Failed ∧ HarnessNote.operation result ∈
        notes ((runTrack (τ := Unit) isolatingBackend (lit "llama3.1:latest")
          (tenantSuite.map (·.toCase))).run (down []) [false, false]).trace := by
  obtain ⟨result, payload, hfailed, hsupported, hends⟩ := ends_runTrack_down
  obtain ⟨-, hlaw, promptDigest, -, hreport⟩ := runTrack_reported (down []) isolatingBackend
    (lit "llama3.1:latest") scalar_tenantSuite nodup_tenantSuite once_lt floatText_track
    (le_refl 2) (lit "down") (lit "DOWN_CMD") hends.result
  refine ⟨payload, promptDigest, _, hreport, rfl, ?_, result, hfailed, ?_⟩
  · obtain ⟨row, hrow⟩ := List.length_eq_one_iff.1 hlaw.rows.length_eq.symm
    rw [hrow] at hsupported ⊢
    exact hsupported
  · rw [hends.notes]
    exact List.mem_of_getElem? (show _[3]? = some _ from rfl)

end Examples

end AdversarialCognition.Report
