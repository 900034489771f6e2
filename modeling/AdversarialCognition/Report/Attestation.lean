import AdversarialCognition.Report.Listing

/-!
# One attestation for all

Above the agent-memory table `render_v2` prints one attestation, the first there is. Each adapter
made its own, and no step on the way compares them: `sharedHarness_iff`.

## Why it should be one

The note above the table says that every row was produced with the same model, prompts and tools.
The harness sees to it that a backend cannot choose its prompts, and the model is a setting of the
process an adapter runs in. The adapters are separate processes, so two of them may be started
with two models, and then each attests, truthfully, to its own. The parser makes sure that an
attestation is there with all its keys, and a reader of the document is shown one.

## What the condition speaks of

`AttestationsAgree` is about the payloads the commands print, before anything was read of them:
any two payloads that are accepted as agent loops have the same values under the keys that are
kept, up to the length to which they are cut. Neither the report nor the document occurs in it.
The law is about the document that was rendered: all entries of the table carry one attestation,
and the line with it stands immediately above the table of just these systems.

## What is left out

Whether an attestation is true is out of reach here; it is a claim by the adapter. That the driver
of the repository attests to the settings it ran with is the subject of `Report/AgentWire.lean`.
Whether there is a document at all is decided in `Report/Layout.lean` and `Report/Listing.lean`,
and is assumed.
-/

namespace AdversarialCognition.Report

open Py Py.Str Json

section Law

variable [Runtime]

/-- The payload of the run is accepted, and it has these values as the attestation of an agent
    loop. -/
def Attests [Numerics] (suite : List SuiteCase) (run : AdapterRun) (items : List (Str × Json)) :
    Prop :=
  ∃ stdout parsed interface, run = .printed stdout ∧ Json.parse stdout = .ok parsed ∧
    (∃ found, parseExternalOutcomes stdout suite 2 = .ok found) ∧
    parsed.getOr "interface" (.str (lit "direct-api")) = .ok interface ∧
    interface.toStr.take 32 = lit "agent-loop" ∧ parsed.getOr "harness" .null = .ok (.obj items)

/-- The values agree, as far as they are kept. -/
def SameAttestation (items items' : List (Str × Json)) : Prop :=
  ∀ key ∈ harnessKeys, boundHarnessValue (Json.lookup items key .null) =
    boundHarnessValue (Json.lookup items' key .null)

/-- Any two of the selected systems attest to the same. -/
def AttestationsAgree [Numerics] (selected : List Str) (suite : List SuiteCase)
    (runs : Str → AdapterRun) : Prop :=
  ∀ system ∈ externalSystems 2, system.1 ∈ selected → ∀ system' ∈ externalSystems 2,
    system'.1 ∈ selected → ∀ items items', Attests suite (runs system.1) items →
      Attests suite (runs system'.1) items' → SameAttestation items items'

/-- The document has this attestation above the table of these systems. -/
def PrintedAbove [Percent] (document : Str) (harness : HarnessBlock) (members : List Member) :
    Prop :=
  join "\n" (harnessLine harness :: [] :: systemsTable members) <:+: document

/-- All systems of the agent-memory table carry one attestation, and this is printed above it. -/
structure HarnessShared [Percent] (report : BenchmarkReport) (document : Str) : Prop where
  /-- Any two members of the table have the same block. -/
  same : ∀ {name entry name' entry'}, (name, BenchmarkTrack.agentMemory) ∈ systemTracks report →
    report.systems.get? name = some entry →
    (name', BenchmarkTrack.agentMemory) ∈ systemTracks report →
    report.systems.get? name' = some entry' → entry.harness = entry'.harness
  /-- And the block of a member is what is printed above the members. -/
  printed : ∀ {name entry}, (name, BenchmarkTrack.agentMemory) ∈ systemTracks report →
    report.systems.get? name = some entry → ∃ harness members, entry.harness = some harness ∧
      AreMembers report .agentMemory members ∧ PrintedAbove document harness members

omit [Runtime] in
/-- What is kept of two attestations is the same if they agree under every required key. -/
theorem keepHarness_eq_iff {items items' : List (Str × Json)} :
    keepHarness items = keepHarness items' ↔ SameAttestation items items' := by
  constructor
  · intro h key hkey
    rw [← lookup_keepHarness items hkey, ← lookup_keepHarness items' hkey, h]
  · intro h
    have hitems : harnessKeys.map (fun key =>
        (lit key, boundHarnessValue (Json.lookup items key .null))) = harnessKeys.map fun key =>
        (lit key, boundHarnessValue (Json.lookup items' key .null)) := by
      refine List.map_congr_left fun key hkey => ?_
      rw [h key hkey]
    rwa [keepHarness, keepHarness, HarnessBlock.mk.injEq]

section Attests

variable [Numerics] {suite : List SuiteCase} {run : AdapterRun}

theorem attests_of_accepted {found : Parsed} (h : Accepted suite 2 run found)
    (hloop : found.interface = lit "agent-loop") :
    ∃ items, Attests suite run items ∧ found.harness = some (keepHarness items) := by
  obtain ⟨stdout, hrun, hparse⟩ := h
  obtain ⟨parsed, hparsed, hheader, -⟩ := parseExternalOutcomes_cases hparse
  obtain ⟨_, interface, -, hinterface, -, htake, hharness⟩ := parseHeader_cases hheader
  rcases parseHarness_cases hharness with ⟨-, hnot⟩ | ⟨items, hitems, -, -, hkept⟩
  · exact absurd ⟨le_rfl, hloop⟩ hnot
  · refine ⟨items, ⟨stdout, parsed, interface, hrun, hparsed, ⟨found, hparse⟩, hinterface, ?_,
      hitems⟩, hkept⟩
    rw [← htake, hloop]

theorem accepted_of_attests {items : List (Str × Json)} (h : Attests suite run items) :
    ∃ found, Accepted suite 2 run found ∧ found.interface = lit "agent-loop" ∧
      found.harness = some (keepHarness items) := by
  obtain ⟨stdout, parsed, interface, hrun, hparsed, ⟨found, hparse⟩, hinterface, htake, hitems⟩ := h
  obtain ⟨parsed', hparsed', hheader, -⟩ := parseExternalOutcomes_cases hparse
  obtain rfl : parsed = parsed' := Except.ok.inj (hparsed.symm.trans hparsed')
  obtain ⟨_, interface', -, hinterface', -, hfound, hharness⟩ := parseHeader_cases hheader
  obtain rfl : interface = interface' := Except.ok.inj (hinterface.symm.trans hinterface')
  have hloop : found.interface = lit "agent-loop" := hfound.trans htake
  refine ⟨found, ⟨stdout, hrun, hparse⟩, hloop, ?_⟩
  rcases parseHarness_cases hharness with ⟨-, hnot⟩ | ⟨items', hitems', -, -, hkept⟩
  · exact absurd ⟨le_rfl, hloop⟩ hnot
  · rw [hitems] at hitems'
    cases hitems'
    exact hkept

end Attests

section Rows

variable [Numerics] {context : ReportContext} {selected : List Str} {suite : List SuiteCase}
  {runs : Str → AdapterRun} {runner : SuiteCase → ReferenceRun} {report : BenchmarkReport}

/-- A row of the agent-memory table is the entry of a system that attests to what it carries. -/
theorem attests_of_track (hversion : context.benchmark = benchmarkV2)
    (hselected : ∀ name ∈ selected, name ∈ knownSystems 2)
    (hreport : reportOf context selected suite runs 2 runner = .ok report) {name : Str}
    {entry : Entry} (htrack : (name, BenchmarkTrack.agentMemory) ∈ systemTracks report)
    (hget : report.systems.get? name = some entry) :
    ∃ system ∈ externalSystems 2, system.1 ∈ selected ∧ ∃ items,
      Attests suite (runs system.1) items ∧ entry.harness = some (keepHarness items) := by
  obtain ⟨found, hfound, hexecuted, hmemory⟩ := mem_systemTracks_iff.1 htrack
  rw [hget] at hfound
  cases hfound
  rcases entry_cases hversion hselected hreport hget hexecuted with ⟨-, rfl⟩ | hread
  · have hdirect : trackForInterface (lit "direct-api") = .agentMemory := hmemory
    exact absurd hdirect (by decide)
  · obtain ⟨system, hsystem, -, hname, found, hfound, hread⟩ := hread
    rw [hread.track, Option.getD_some, trackForInterface_eq_agentMemory_iff] at hmemory
    obtain ⟨items, hattests, hkept⟩ := attests_of_accepted hfound hmemory
    exact ⟨system, hsystem, hname, items, hattests, hread.harness.trans hkept⟩

/-- A selected system that attests has a row, with what is kept of it. -/
theorem track_of_attests (hversion : context.benchmark = benchmarkV2)
    (hselected : ∀ name ∈ selected, name ∈ knownSystems 2)
    (hreport : reportOf context selected suite runs 2 runner = .ok report) {system : Str × Str}
    (hsystem : system ∈ externalSystems 2) (hname : system.1 ∈ selected)
    {items : List (Str × Json)} (h : Attests suite (runs system.1) items) :
    ∃ entry, report.systems.get? system.1 = some entry ∧
      (system.1, BenchmarkTrack.agentMemory) ∈ systemTracks report ∧
      entry.harness = some (keepHarness items) := by
  obtain ⟨found, hfound, hloop, hkept⟩ := accepted_of_attests h
  obtain ⟨entry, hget, hread⟩ := get?_of_accepted hversion hselected hreport hsystem hname hfound
  have htrack := hread.mem_systemTracks hget
  rw [trackForInterface_eq_agentMemory_iff.2 hloop] at htrack
  exact ⟨entry, hget, htrack, hread.harness.trans hkept⟩

end Rows

variable [Percent] {report : BenchmarkReport} {labels : List (Str × Str)} {document : Str}

omit [Runtime] [Percent] in
/-- Where all members carry one attestation it is the one that is printed. -/
theorem sharedHarness_of_forall {members : List Member} {harness : HarnessBlock}
    (hne : members ≠ []) (h : ∀ member ∈ members, member.entry.harness = some harness) :
    sharedHarness members = some harness := by
  obtain ⟨first, rest, rfl⟩ := List.exists_cons_of_ne_nil hne
  rw [sharedHarness, List.findSome?_cons, h first List.mem_cons_self]

theorem document_of_renderV2 {lines : List Str} (hlines : renderLines report = .ok lines)
    (hdocument : renderV2 report = .ok document) : document = join "\n" lines := by
  rw [renderV2, hlines] at hdocument
  obtain ⟨_, hbuilt, hdocument⟩ := bind_eq_ok_iff.1 hdocument
  cases hbuilt
  obtain ⟨_, -, hdocument⟩ := bind_eq_ok_iff.1 hdocument
  exact (Except.ok.inj hdocument).symm

/-- The attestation that is printed is above the table of its track. -/
theorem printedAbove (h : Listed report labels) (hdocument : renderV2 report = .ok document)
    (track : BenchmarkTrack) : ∃ members, AreMembers report track members ∧
      ∀ harness, sharedHarness members = some harness → PrintedAbove document harness members := by
  obtain ⟨layout, hlines⟩ := renderLines_spec h
  refine ⟨layout.members track, layout.areMembers track, fun harness hshared => ?_⟩
  have hne : layout.members track ≠ [] := by
    intro hnil
    rw [hnil] at hshared
    cases hshared
  have hsection : ∃ before after, layout.lines ++ [[]] =
      before ++ sectionOf track (layout.members track) (layout.rows track) ++ after := by
    have htrack : layout.track track =
        sectionOf track (layout.members track) (layout.rows track) := if_neg hne
    rw [← htrack, Layout.lines]
    -- the section of the second track comes after that of the first, in the lines as in the
    -- layout
    cases track with
    | memoryStore =>
      refine ⟨headerLines report, layout.track .agentMemory ++ gateLines report ++
        absentLines report ++ legendLines.dropLast ++ [[]], ?_⟩
      simp only [List.append_assoc]
    | agentMemory =>
      refine ⟨headerLines report ++ layout.track .memoryStore, gateLines report ++
        absentLines report ++ legendLines.dropLast ++ [[]], ?_⟩
      simp only [List.append_assoc]
  obtain ⟨before, after, hsection⟩ := hsection
  have hharness : harnessLines (layout.members track) = [harnessLine harness, []] := by
    rw [harnessLines, hshared]
  rw [PrintedAbove, document_of_renderV2 hlines hdocument, hsection, sectionOf, hharness]
  have hinfix := join_infix "\n" (before ++ [[], trackHeading track, [], track.note, []])
    ([[], matrixHeading track, []] ++
      matrixTable (layout.members track) (layout.rows track) ++ after)
    (List.cons_ne_nil (harnessLine harness) ([] :: systemsTable (layout.members track)))
  simpa only [List.append_assoc, List.cons_append, List.nil_append] using hinfix

/-- **The line above the table is true of every row if and only if all the adapters attest to the
    same.** It is the attestation of the first member that has one, and nothing compares it with
    that of the others. What an adapter attests to is cut on the way into the report, and equal
    only as far as it is kept. -/
theorem sharedHarness_iff [Numerics] {context : ReportContext} {selected : List Str}
    {suite : List SuiteCase} {runs : Str → AdapterRun} {runner : SuiteCase → ReferenceRun}
    (hversion : context.benchmark = benchmarkV2)
    (hselected : ∀ name ∈ selected, name ∈ knownSystems 2)
    (hreport : reportOf context selected suite runs 2 runner = .ok report)
    (hdocument : renderV2 report = .ok document) :
    HarnessShared report document ↔ AttestationsAgree selected suite runs := by
  -- each track entry is one system whose harness was attested
  have hlisted := listed_of_reportOf hversion hselected hreport
  constructor
  · intro hshared system hsystem hname system' hsystem' hname' items items' hattests hattests'
    obtain ⟨entry, hget, htrack, hkept⟩ :=
      track_of_attests hversion hselected hreport hsystem hname hattests
    obtain ⟨entry', hget', htrack', hkept'⟩ :=
      track_of_attests hversion hselected hreport hsystem' hname' hattests'
    rw [← keepHarness_eq_iff]
    have heq := hshared.same htrack hget htrack' hget'
    rw [hkept, hkept'] at heq
    exact Option.some.inj heq
  · intro hagree
    have hsame : ∀ {name entry name' entry'},
        (name, BenchmarkTrack.agentMemory) ∈ systemTracks report →
        report.systems.get? name = some entry →
        (name', BenchmarkTrack.agentMemory) ∈ systemTracks report →
        report.systems.get? name' = some entry' → entry.harness = entry'.harness := by
      intro name entry name' entry' htrack hget htrack' hget'
      obtain ⟨system, hsystem, hname, items, hattests, hkept⟩ :=
        attests_of_track hversion hselected hreport htrack hget
      obtain ⟨system', hsystem', hname', items', hattests', hkept'⟩ :=
        attests_of_track hversion hselected hreport htrack' hget'
      have hitems := hagree system hsystem hname system' hsystem' hname' _ _ hattests hattests'
      rw [hkept, hkept', keepHarness_eq_iff.2 hitems]
    refine ⟨hsame, fun htrack hget => ?_⟩
    obtain ⟨_, -, -, items, -, hkept⟩ := attests_of_track hversion hselected hreport htrack hget
    obtain ⟨members, hare, hprinted⟩ := printedAbove hlisted hdocument .agentMemory
    obtain ⟨cases, hmember⟩ := listedMember_of_track hlisted htrack hget
    have hne := List.ne_nil_of_mem ((hare.mem _).2 hmember)
    refine ⟨_, members, hkept, hare, hprinted _ (sharedHarness_of_forall hne fun member hmem => ?_)⟩
    have hlistedMember := (hare.mem member).1 hmem
    rw [hsame hlistedMember.track hlistedMember.entry htrack hget, hkept]

end Law

/-!
## Two models

Two agent loops, of which one ran on a model that is given. Each attests to what it ran on, and
one attestation is printed for both.
-/

section Examples

attribute [local instance] cpython Numerics.verbatim smallPercent

/-- Two agent loops, one of them with this model. -/
def loopRuns (model : String) (name : Str) : AdapterRun :=
  if name = lit "memfs-agent" then .printed (agentPayload model).dumps
  else .printed (agentPayload "llama3.1").dumps

theorem attests_agentPayload (model : String) :
    Attests [suiteCase "a"] (.printed (agentPayload model).dumps) (harnessItems model) := by
  obtain ⟨found, hfound, -⟩ := agentPayload_accepted model
  exact ⟨_, agentPayload model, .str (lit "agent-loop"), rfl, parse_agentPayload model,
    ⟨found, hfound⟩, rfl, by decide, rfl⟩

theorem eq_harnessItems {model : String} {items : List (Str × Json)}
    (h : Attests [suiteCase "a"] (.printed (agentPayload model).dumps) items) :
    items = harnessItems model := by
  obtain ⟨stdout, parsed, _, hrun, hparsed, -, -, -, hitems⟩ := h
  cases hrun
  obtain rfl : parsed = agentPayload model :=
    Except.ok.inj (hparsed.symm.trans (parse_agentPayload model))
  cases hitems
  rfl

theorem plainRun_loopRuns {model : String} (h : Unbroken ((lit model).take 128)) (name : Str) :
    PlainRun (loopRuns model name) := by
  unfold loopRuns
  split
  · exact .agent h
  · exact .agent (by decide)

theorem document_of_plain {selected : List Str} {runs : Str → AdapterRun}
    (hselected : ∀ name ∈ selected, name ∈ knownSystems 2) (hruns : ∀ name, PlainRun (runs name)) :
    ∃ report document, reportOf plainContext selected [suiteCase "a"] runs 2 plainRunner =
      .ok report ∧ renderV2 report = .ok document := by
  obtain ⟨report, hreport⟩ := built_of_plain hselected hruns
  have hlisted := listed_of_reportOf rfl hselected hreport
  obtain ⟨document, hdocument, -⟩ := (rendersRight_iff hlisted).2
    ⟨rowsUnbroken_of_plain hselected hruns hreport, tablesApart_of_plain hselected hruns hreport,
      proseApart_of_unbroken hlisted (proseUnbroken_of_plain hselected hruns hreport)⟩
  exact ⟨report, document, hreport, hdocument⟩

/-- Two models in one table, under the attestation of one of them. -/
theorem twoModels_notShared : ∃ report document,
    reportOf plainContext ["memfs-agent", "letta-agent"] [suiteCase "a"] (loopRuns "qwen3") 2
      plainRunner = .ok report ∧ renderV2 report = .ok document ∧
      ¬ HarnessShared report document := by
  have hknown : ∀ name ∈ [lit "memfs-agent", lit "letta-agent"], name ∈ knownSystems 2 := by
    decide
  obtain ⟨report, document, hreport, hdocument⟩ :=
    document_of_plain hknown (plainRun_loopRuns (show Unbroken ((lit "qwen3").take 128) by decide))
  refine ⟨report, document, hreport, hdocument, fun hshared => ?_⟩
  obtain ⟨entry, hget, htrack, hkept⟩ := track_of_attests rfl hknown hreport
    (show (lit "memfs-agent", lit "MARCIANA_ADVERSARIAL_MEMFS_AGENT_CMD") ∈ externalSystems 2 by
      decide) (by decide) (attests_agentPayload "qwen3")
  obtain ⟨entry', hget', htrack', hkept'⟩ := track_of_attests rfl hknown hreport
    (show (lit "letta-agent", lit "MARCIANA_ADVERSARIAL_LETTA_AGENT_CMD") ∈ externalSystems 2 by
      decide) (by decide) (attests_agentPayload "llama3.1")
  have heq := hshared.same htrack hget htrack' hget'
  rw [hkept, hkept'] at heq
  have hmodel := keepHarness_eq_iff.1 (Option.some.inj heq) "model" List.mem_cons_self
  have hne : (lit "qwen3").take 128 ≠ (lit "llama3.1").take 128 := by decide
  exact hne (Json.str.inj hmodel)

/-- One model in both. -/
theorem oneModel_shared : ∃ report document,
    reportOf plainContext ["memfs-agent", "letta-agent"] [suiteCase "a"] (loopRuns "llama3.1") 2
      plainRunner = .ok report ∧ renderV2 report = .ok document ∧
      HarnessShared report document := by
  have hknown : ∀ name ∈ [lit "memfs-agent", lit "letta-agent"], name ∈ knownSystems 2 := by
    decide
  obtain ⟨report, document, hreport, hdocument⟩ :=
    document_of_plain hknown (plainRun_loopRuns (show Unbroken ((lit "llama3.1").take 128) by decide))
  refine ⟨report, document, hreport, hdocument, ?_⟩
  refine (sharedHarness_iff rfl hknown hreport hdocument).2 ?_
  have hsame : ∀ name, loopRuns "llama3.1" name = .printed (agentPayload "llama3.1").dumps :=
    fun name => ite_self _
  intro system _ _ system' _ _ items items' hattests hattests'
  rw [hsame] at hattests hattests'
  rw [eq_harnessItems hattests, eq_harnessItems hattests']
  exact fun key _ => rfl

end Examples

end AdversarialCognition.Report
