import AdversarialCognition.Report.Adapters
import AdversarialCognition.Report.Gates
import AdversarialCognition.Report.Manifest

/-!
# From the systems to the report

`execute_systems` of `adversarial_cognition/adapters.py`, `tracks.py`, and `build_report` of
`adversarial_cognition/report.py`. What is in the report under fixed keys is a structure here,
with an `Option` where a key may be missing; `toJson` is the dictionary, which the last check
walks.

## Structures and dictionaries

The results about reports speak of entries and outcomes, so these are values with fields. What is
printed, and what is checked before it is printed, is the dictionary, so `toJson` has every key of
the source in its order. Systems are in a dictionary by name in the source and here, as a name
that is repeated replaces an entry, and `get?_systemEntries` and what follows it are about nothing
else.

## The last check

`assert_bounded` walks the dictionary and calls itself for what is in it, so besides a text that
is too long it can fail for nesting. `walk` has the calls that may still be opened as an argument,
and `walk_eq_ok_iff` takes it apart into two questions about the value: is every text bounded, and
are there calls enough.

## What is taken as given

The times are measured, so they come in as text. Percentiles of floats, the receipts that did not
match and the public corpora come in with the context. The reference is run by a function of the
case, whatever it does; that it is the backend of `Backend/` is not used here.
-/

namespace AdversarialCognition.Report

open Py Py.Str Json

/-!
## Tracks

A system is in the track of its interface. The interface is any text, and every text but one is
that of a memory store.
-/

/-- The two tracks of the second benchmark. -/
inductive BenchmarkTrack
  | memoryStore
  | agentMemory
  deriving DecidableEq, Repr

/-- Its name. -/
def BenchmarkTrack.text : BenchmarkTrack → Str
  | .memoryStore => "memory-store"
  | .agentMemory => "agent-memory"

/-- `TRACKS` -/
def benchmarkTracks : List BenchmarkTrack := [.memoryStore, .agentMemory]

/-- `_INTERFACE_TRACK` -/
def interfaceTracks : List (Str × BenchmarkTrack) :=
  [("direct-api", .memoryStore), ("agent-loop", .agentMemory)]

/-- `track_for_interface`. An interface that is not known is one of a memory store. -/
def trackForInterface (interface : Str) : BenchmarkTrack :=
  (interfaceTracks.lookup interface).getD .memoryStore

/-!
## Executing the systems

The reference is run in the process, and is first; the others are commands, in the order of the
registry. An unknown name raises before anything is run.
-/

/-- `EXTERNAL_SYSTEMS` -/
def externalSystemsV1 : List (Str × Str) := [
  ("mem0", "MARCIANA_ADVERSARIAL_MEM0_CMD"),
  ("letta", "MARCIANA_ADVERSARIAL_LETTA_CMD"),
  ("letta-direct", "MARCIANA_ADVERSARIAL_LETTA_DIRECT_CMD"),
  ("cognee", "MARCIANA_ADVERSARIAL_COGNEE_CMD"),
  ("cognee-rs", "MARCIANA_ADVERSARIAL_COGNEE_RS_CMD"),
  ("graphiti", "MARCIANA_ADVERSARIAL_GRAPHITI_CMD"),
  ("akka-fluree", "MARCIANA_ADVERSARIAL_AKKA_FLUREE_CMD")]

/-- `EXTERNAL_SYSTEMS_V2` -/
def externalSystemsV2 : List (Str × Str) := [
  ("mem0", "MARCIANA_ADVERSARIAL_MEM0_CMD"),
  ("letta-direct", "MARCIANA_ADVERSARIAL_LETTA_DIRECT_CMD"),
  ("cognee", "MARCIANA_ADVERSARIAL_COGNEE_CMD"),
  ("cognee-rs", "MARCIANA_ADVERSARIAL_COGNEE_RS_CMD"),
  ("graphiti", "MARCIANA_ADVERSARIAL_GRAPHITI_CMD"),
  ("akka-fluree", "MARCIANA_ADVERSARIAL_AKKA_FLUREE_CMD"),
  ("marciana-agent", "MARCIANA_ADVERSARIAL_MARCIANA_AGENT_CMD"),
  ("memfs-agent", "MARCIANA_ADVERSARIAL_MEMFS_AGENT_CMD"),
  ("letta-agent", "MARCIANA_ADVERSARIAL_LETTA_AGENT_CMD")]

/-- The systems of a version, with the variables their commands are read from. -/
def externalSystems (benchmarkVersion : ℕ) : List (Str × Str) :=
  if 2 ≤ benchmarkVersion then externalSystemsV2 else externalSystemsV1

/-- What the runner makes of a case, and the time a run of it took. -/
structure ReferenceRun where
  correct : Bool
  allowed : Bool
  ids : List Str
  receipt : Str
  elapsedUs : Str

/-- The outcome of a case the reference was run on. -/
def referenceOutcome (runner : SuiteCase → ReferenceRun) (case : SuiteCase) : CaseOutcome where
  caseId := case.caseId
  category := case.category
  correct := (runner case).correct
  allowed := (runner case).allowed
  returnedIds := (runner case).ids
  receipt := (runner case).receipt
  latencyUs := (runner case).elapsedUs

/-- `execute_marciana` -/
def executeMarciana (suite : List SuiteCase) (runner : SuiteCase → ReferenceRun) : SystemReport where
  system := "marciana"
  adapterVersion := adapterProtocol
  status := .executed
  interface := "direct-api"
  outcomes := suite.map (referenceOutcome runner)

/-- `sorted(strings)` -/
def sorted (strings : List Str) : List Str := strings.mergeSort fun a b => !decide (b < a)

section Execute

variable [Runtime] [Numerics]

/-- `execute_systems`, given what comes of the command of each system. An unknown name raises
    before anything is run. -/
def executeSystems (selected : List Str) (suite : List SuiteCase) (runs : Str → AdapterRun)
    (benchmarkVersion : ℕ) (runner : SuiteCase → ReferenceRun) :
    Except Raised (List SystemReport) := do
  let registry := externalSystems benchmarkVersion
  let known := lit "marciana" :: registry.map Prod.fst
  let unknown := selected.dedup.filter (· ∉ known)
  if unknown ≠ [] then
    throw ⟨.valueError, lit "unknown benchmark systems: " ++ (strs (sorted unknown)).repr⟩
  let reference :=
    if lit "marciana" ∈ selected then [executeMarciana suite runner] else []
  let external ← (registry.filter fun entry => entry.1 ∈ selected).mapM fun entry =>
    executeExternal entry.1 entry.2 suite benchmarkVersion (runs entry.1)
  return reference ++ external

end Execute

/-!
## Entries

The entry of a system is what its report is as a dictionary, and the stamp of its track is put
into it afterwards. The groups are derived from the entries once more.
-/

/-- What `as_dict` makes of a report, and the track that is stamped on it later. -/
structure Entry where
  system : Str
  adapterVersion : Str
  status : Status
  missingConfiguration : Option (List Str) := none
  error : Option Str := none
  interface : Option Str := none
  cases : Option (List CaseOutcome) := none
  unsupportedCases : Option ℕ := none
  harness : Option HarnessBlock := none
  track : Option BenchmarkTrack := none

/-- `SystemReport.as_dict`. A harness block has keys, so it counts as true. -/
def SystemReport.asDict (report : SystemReport) : Entry where
  system := report.system
  adapterVersion := report.adapterVersion
  status := report.status
  missingConfiguration :=
    if report.missingConfiguration ≠ [] then some report.missingConfiguration else none
  error := if report.error ≠ [] then some report.error else none
  interface := if report.status = .executed then some report.interface else none
  cases := if report.status = .executed then some report.outcomes else none
  unsupportedCases :=
    if report.status = .executed then some (report.outcomes.countP (!·.supported)) else none
  harness := if report.status = .executed then report.harness else none

/-- `entry.get("interface", "direct-api")` -/
def Entry.interfaceOr (entry : Entry) : Str := entry.interface.getD "direct-api"

/-- `entry["track"] = track_for_interface(entry.get("interface", "direct-api"))` -/
def Entry.stamp (entry : Entry) : Entry :=
  { entry with track := some (trackForInterface entry.interfaceOr) }

/-- `{system.system: system.as_dict() for system in systems}` -/
def systemEntries (systems : List SystemReport) : Dict Str Entry :=
  systems.foldl (fun entries report => entries.set report.system report.asDict) .empty

/-- The group of a track in `group_by_track`. -/
def trackGroup (systems : Dict Str Entry) (track : BenchmarkTrack) : List Str :=
  (systems.items.filter fun item =>
    item.2.status = .executed && trackForInterface item.2.interfaceOr = track).map Prod.fst

/-- `group_by_track` -/
def groupByTrack (systems : Dict Str Entry) : List (BenchmarkTrack × List Str) :=
  benchmarkTracks.map fun track => (track, trackGroup systems track)

/-!
## Sections of the report

How each part is computed from the outcomes, and what of it is printed.
-/

section Sections

variable [Numerics]

/-- `CaseOutcome.as_dict` -/
def CaseOutcome.toJson (outcome : CaseOutcome) : Json := .obj [
  ("case_id", .str outcome.caseId),
  ("category", .str outcome.category),
  ("correct", .bool outcome.correct),
  ("allowed", .bool outcome.allowed),
  ("returned_ids", strs outcome.returnedIds),
  ("receipt", .str outcome.receipt),
  ("latency_us", .float (Numerics.round3 outcome.latencyUs)),
  ("supported", .bool outcome.supported)]

/-- The item of a key that may be missing. -/
def member? (key : String) (value : Option Json) : List (Str × Json) :=
  (value.map fun value => (lit key, value)).toList

/-- The keys of an entry. One that has no value is left out. -/
def Entry.members (entry : Entry) : List (Str × Json) :=
  [(lit "system", .str entry.system), (lit "adapter_version", .str entry.adapterVersion),
    (lit "status", .str entry.status.text)]
  ++ member? "missing_configuration" (entry.missingConfiguration.map strs)
  ++ member? "error" (entry.error.map .str)
  ++ member? "interface" (entry.interface.map .str)
  ++ member? "cases" (entry.cases.map fun cases => .list (cases.map (·.toJson)))
  ++ member? "unsupported_cases" (entry.unsupportedCases.map fun n => .int n)
  ++ member? "harness" (entry.harness.map fun harness => .obj harness.items)
  ++ member? "track" (entry.track.map fun track => .str track.text)

/-- The entry as it is printed. -/
def Entry.toJson (entry : Entry) : Json := .obj entry.members

/-- `sum(o.correct for o in rows) / len(rows)` -/
def accuracy (rows : List CaseOutcome) : Json :=
  .float (Numerics.ratio (rows.countP (·.correct)) rows.length)

/-- `quality` -/
def quality (outcomes : List CaseOutcome) : Json :=
  let supported := outcomes.filter (·.supported)
  let ofCategory (category : Str) := supported.filter (·.category = category)
  let abstentions := ofCategory (lit "abstention")
  .obj [
    ("accuracy", if supported ≠ [] then accuracy supported else .float "0.0"),
    ("unsupported_cases", .int (outcomes.length - supported.length)),
    ("category_accuracy", .obj ((sorted (supported.map (·.category)).dedup).map fun category =>
      (category, accuracy (ofCategory category)))),
    ("unsupported_answer_rate", if abstentions ≠ [] then
        .float (Numerics.ratio (abstentions.countP (!·.returnedIds.isEmpty)) abstentions.length)
      else .float "0.0")]

/-- The verdict of a report. -/
inductive OverallStatus
  | pass
  | fail
  | incomplete
  deriving DecidableEq, Repr

/-- As it is printed. -/
def OverallStatus.text : OverallStatus → Str
  | .pass => "pass"
  | .fail => "fail"
  | .incomplete => "incomplete"

/-- `next((report for report in systems if report.system == "marciana"), None)` -/
def reference? (systems : List SystemReport) : Option SystemReport :=
  systems.find? fun report => report.system = lit "marciana"

/-- A gate that counts anything fails the report. Otherwise it passes if the reference was
    executed. -/
def overallStatus (counts : Gate → ℕ) (systems : List SystemReport) : OverallStatus :=
  if gates.any fun gate => counts gate ≠ 0 then .fail
  else
    match reference? systems with
    | some marciana => if marciana.status = .executed then .pass else .incomplete
    | none => .incomplete

/-!
## The check

`assert_bounded`, by recursion over the value. What it raises tells a text that is too long from a
value that is too deep, and it passes if neither is there.
-/

/-- `MAX_REPORT_TEXT` -/
def maxReportText : ℕ := 256

/-- A text of bounded length and without a newline. -/
def boundedText (s : Str) : Bool :=
  s.length ≤ maxReportText && !s.contains (CodePoint.ofChar '\n')

/-- What `walk` raises at a text. -/
def unboundedError : Raised :=
  ⟨.valueError, "benchmark report contains an unbounded string"⟩

/-- What a call raises for which there is no room. -/
def tooManyCalls : Raised := ⟨.recursionError, "maximum recursion depth exceeded"⟩

/-- `walk` of a text or a key, while so many calls of it may still be opened. -/
def walkText : ℕ → Str → Except Raised Unit
  | 0, _ => .error tooManyCalls
  | _ + 1, s => if boundedText s then .ok () else .error unboundedError

mutual

/-- `walk`, which calls itself for each value in a value and each key. -/
def walk : ℕ → Json → Except Raised Unit
  | 0, _ => .error tooManyCalls
  | n + 1, .str s => walkText (n + 1) s
  | n + 1, .obj items => walkMembers n items
  | n + 1, .list items => walkItems n items
  | _ + 1, _ => .ok ()

def walkMembers : ℕ → List (Str × Json) → Except Raised Unit
  | _, [] => .ok ()
  | n, (key, item) :: items => do
      walkText n key
      walk n item
      walkMembers n items

def walkItems : ℕ → List Json → Except Raised Unit
  | _, [] => .ok ()
  | n, item :: items => do
      walk n item
      walkItems n items

end

/-- `assert_bounded` -/
def assertBounded (report : Json) : Except Raised Unit := walk Numerics.frames report

/-! A report gets through if no text in it is too long or has a newline, and it does not nest deeper
than the calls go. -/

mutual

/-- No text of the value is unbounded. -/
def bounded : Json → Bool
  | .str s => boundedText s
  | .obj items => boundedMembers items
  | .list items => boundedItems items
  | _ => true

def boundedMembers : List (Str × Json) → Bool
  | [] => true
  | (key, item) :: items => boundedText key && bounded item && boundedMembers items

def boundedItems : List Json → Bool
  | [] => true
  | item :: items => bounded item && boundedItems items

end

mutual

/-- How many calls of `walk` are open at once. -/
def calls : Json → ℕ
  | .obj items => callsMembers items + 1
  | .list items => callsItems items + 1
  | _ => 1

def callsMembers : List (Str × Json) → ℕ
  | [] => 0
  | (_, item) :: items => max (calls item) (callsMembers items)

def callsItems : List Json → ℕ
  | [] => 0
  | item :: items => max (calls item) (callsItems items)

end

omit [Numerics] in
theorem calls_pos (value : Json) : 0 < calls value := by
  cases value <;> simp [calls]

omit [Numerics] in
/-- A text passes where it is bounded, and there is a call left to look at it. -/
theorem walkText_eq_ok_iff {n : ℕ} {s : Str} :
    walkText n s = .ok () ↔ boundedText s = true ∧ 0 < n := by
  cases n with
  | zero => exact iff_of_false (fun h => nomatch h) fun h => absurd h.2 (Nat.lt_irrefl 0)
  | succ n =>
    rw [walkText]
    split
    · rename_i h
      exact iff_of_true rfl ⟨h, Nat.succ_pos n⟩
    · rename_i h
      exact iff_of_false (fun heq => nomatch heq) fun hboth => h hboth.1

omit [Numerics] in
mutual

/-- **`walk` gets through** where every text is bounded and there are enough calls. -/
theorem walk_eq_ok_iff : ∀ (n : ℕ) (value : Json),
    walk n value = .ok () ↔ bounded value = true ∧ calls value ≤ n
  | 0, value => by
    refine iff_of_false (fun h => ?_) fun h => ?_
    · rw [walk] at h
      cases h
    · exact absurd (calls_pos value) (Nat.not_lt.2 h.2)
  | n + 1, .str s => by
    have hcalls : calls (.str s) = 1 := rfl
    rw [walk, walkText_eq_ok_iff, bounded, hcalls]
    exact Iff.rfl
  | n + 1, .obj items => by
    rw [walk, bounded, calls, Nat.add_le_add_iff_right]
    exact walkMembers_eq_ok_iff n items
  | n + 1, .list items => by
    rw [walk, bounded, calls, Nat.add_le_add_iff_right]
    exact walkItems_eq_ok_iff n items
  | n + 1, .null => iff_of_true rfl ⟨rfl, Nat.succ_pos n⟩
  | n + 1, .bool _ => iff_of_true rfl ⟨rfl, Nat.succ_pos n⟩
  | n + 1, .int _ => iff_of_true rfl ⟨rfl, Nat.succ_pos n⟩
  | n + 1, .float _ => iff_of_true rfl ⟨rfl, Nat.succ_pos n⟩

theorem walkMembers_eq_ok_iff : ∀ (n : ℕ) (items : List (Str × Json)),
    walkMembers n items = .ok () ↔ boundedMembers items = true ∧ callsMembers items ≤ n
  | n, [] => iff_of_true rfl ⟨rfl, Nat.zero_le n⟩
  | n, (key, item) :: items => by
    have hitem := walk_eq_ok_iff n item
    have hitems := walkMembers_eq_ok_iff n items
    have hpos := calls_pos item
    simp only [walkMembers, check_eq_ok_iff, hitem, hitems, walkText_eq_ok_iff, boundedMembers,
      callsMembers, Bool.and_eq_true, max_le_iff]
    constructor
    · rintro ⟨⟨hkey, -⟩, ⟨hitem, hcalls⟩, hitems, hmore⟩
      exact ⟨⟨⟨hkey, hitem⟩, hitems⟩, hcalls, hmore⟩
    · rintro ⟨⟨⟨hkey, hitem⟩, hitems⟩, hcalls, hmore⟩
      exact ⟨⟨hkey, Nat.lt_of_lt_of_le hpos hcalls⟩, ⟨hitem, hcalls⟩, hitems, hmore⟩

theorem walkItems_eq_ok_iff : ∀ (n : ℕ) (items : List Json),
    walkItems n items = .ok () ↔ boundedItems items = true ∧ callsItems items ≤ n
  | n, [] => iff_of_true rfl ⟨rfl, Nat.zero_le n⟩
  | n, item :: items => by
    have hitem := walk_eq_ok_iff n item
    have hitems := walkItems_eq_ok_iff n items
    simp only [walkItems, check_eq_ok_iff, hitem, hitems, boundedItems, callsItems,
      Bool.and_eq_true, max_le_iff]
    exact and_and_and_comm

end

/-- `assert_bounded` lets the value pass. -/
def passes (value : Json) : Bool := bounded value && calls value ≤ Numerics.frames

/-- **A report passes its check** exactly if its texts are bounded and it nests within the calls. -/
theorem assertBounded_eq_ok_iff {value : Json} :
    assertBounded value = .ok () ↔ passes value = true := by
  rw [assertBounded, walk_eq_ok_iff, passes, Bool.and_eq_true, decide_eq_true_iff]

/-!
## The report

The parts, assembled and then checked.
-/

/-- What a report is built of besides the systems. The order of floats is not modelled, and
    `percentile` is taken as given. -/
structure ReportContext where
  metadata : List (Str × Str)
  manifestDigest : Str
  receiptMismatches : ℕ
  formationUs : Str
  restartUs : Str
  corpora : List (Str × Json)
  benchmark : Str
  percentile : List Str → ℕ → Str

/-- `performance` -/
def performance (context : ReportContext) (outcomes : List CaseOutcome) : Json :=
  let ranked (percentage : ℕ) : Json :=
    .float (Numerics.round3 (context.percentile (outcomes.map (·.latencyUs)) percentage))
  .obj [
    ("p50_latency_us", ranked 50),
    ("p95_latency_us", ranked 95),
    ("p99_latency_us", ranked 99),
    ("formation_us", .float (Numerics.round3 context.formationUs)),
    ("restart_us", .float (Numerics.round3 context.restartUs))]

/-- `BenchmarkReport`, before it is printed. -/
structure BenchmarkReport where
  benchmark : Str
  corpusDigest : Str
  status : OverallStatus
  metadata : List (Str × Str)
  hardGates : Gate → ℕ
  systems : Dict Str Entry
  cases : List CaseOutcome
  quality : Json
  performance : Json
  publicCorpora : List (Str × Json)
  tracks : Option (List (BenchmarkTrack × List Str)) := none

/-- The report as it is printed. A first report has no tracks. -/
def BenchmarkReport.toJson (report : BenchmarkReport) : Json := .obj <| [
  (lit "benchmark", .str report.benchmark),
  (lit "corpus_digest", .str report.corpusDigest),
  (lit "status", .str report.status.text),
  (lit "metadata", .obj (report.metadata.map fun item => (item.1, .str item.2))),
  (lit "hard_gates", .obj (gates.map fun gate => (gate.name, .int (report.hardGates gate)))),
  (lit "systems", .obj (report.systems.items.map fun item => (item.1, item.2.toJson))),
  (lit "cases", .list (report.cases.map (·.toJson))),
  (lit "quality", report.quality),
  (lit "performance", report.performance),
  (lit "public_corpora", .obj report.publicCorpora)]
  ++ member? "tracks" (report.tracks.map fun groups =>
      .obj (groups.map fun group => (group.1.text, strs group.2)))

/-- The outcomes of the reference, if it was executed. -/
def referenceOutcomes (systems : List SystemReport) : List CaseOutcome :=
  match reference? systems with
  | some marciana => if marciana.status = .executed then marciana.outcomes else []
  | none => []

/-- `build_report` up to its check. -/
def assembleReport (context : ReportContext) (systems : List SystemReport) : BenchmarkReport :=
  let outcomes := referenceOutcomes systems
  let counts := hardGates outcomes context.receiptMismatches
  let entries := systemEntries systems
  let stamped := if context.benchmark = benchmarkV2 then
      entries.updateWhere (·.status = .executed) Entry.stamp
    else entries
  { benchmark := context.benchmark
    corpusDigest := context.manifestDigest
    status := overallStatus counts systems
    metadata := context.metadata
    hardGates := counts
    systems := stamped
    cases := outcomes
    quality := if outcomes ≠ [] then quality outcomes else .obj []
    performance := if outcomes ≠ [] then performance context outcomes else .obj []
    publicCorpora := context.corpora
    tracks := if context.benchmark = benchmarkV2 then some (groupByTrack stamped) else none }

/-- `build_report` -/
def buildReport (context : ReportContext) (systems : List SystemReport) :
    Except Raised BenchmarkReport := do
  let report := assembleReport context systems
  assertBounded report.toJson
  return report

theorem buildReport_eq_ok_iff {context : ReportContext} {systems : List SystemReport}
    {report : BenchmarkReport} : buildReport context systems = .ok report ↔
      passes (assembleReport context systems).toJson = true ∧
        report = assembleReport context systems := by
  rw [← assertBounded_eq_ok_iff, buildReport, check_eq_ok_iff]
  refine and_congr_right fun _ => ?_
  exact ⟨fun heq => (Except.ok.inj heq).symm, fun heq => congrArg Except.ok heq.symm⟩

end Sections

/-!
## The entries of a report

The systems are put into a dictionary by their names. A name that comes twice leaves the entry of
the last.
-/

section Entries

variable {systems : List SystemReport} {name : Str} {entry : Entry}

theorem systemEntries_concat (systems : List SystemReport) (report : SystemReport) :
    systemEntries (systems ++ [report]) = (systemEntries systems).set report.system report.asDict :=
  List.foldl_concat ..

theorem get?_systemEntries (h : (systemEntries systems).get? name = some entry) :
    ∃ report ∈ systems, report.system = name ∧ entry = report.asDict := by
  induction systems using List.reverseRecOn with
  | nil => cases h
  | append_singleton systems report ih =>
    rw [systemEntries_concat, Dict.get?_set] at h
    split at h
    · rename_i hname
      exact ⟨report, List.mem_append_right _ List.mem_cons_self, hname.symm,
        (Option.some.inj h).symm⟩
    · obtain ⟨found, hmem, hfound⟩ := ih h
      exact ⟨found, List.mem_append_left _ hmem, hfound⟩

theorem get?_systemEntries_of_last {pre post : List SystemReport} {report : SystemReport}
    (hlast : ∀ later ∈ post, later.system ≠ report.system) :
    (systemEntries (pre ++ report :: post)).get? report.system = some report.asDict := by
  induction post using List.reverseRecOn with
  | nil => rw [systemEntries_concat, Dict.get?_set, if_pos rfl]
  | append_singleton post later ih =>
    obtain ⟨hpost, hlater⟩ := List.forall_mem_append.1 hlast
    have hne : report.system ≠ later.system := (hlater later List.mem_cons_self).symm
    have happend : pre ++ report :: (post ++ [later]) = (pre ++ report :: post) ++ [later] := by simp
    rw [happend, systemEntries_concat, Dict.get?_set, if_neg hne]
    exact ih hpost

/-- Where no name is repeated, every system has its own entry. -/
theorem get?_systemEntries_of_mem (hnodup : (systems.map (·.system)).Nodup)
    {report : SystemReport} (hmem : report ∈ systems) :
    (systemEntries systems).get? report.system = some report.asDict := by
  obtain ⟨pre, post, rfl⟩ := List.append_of_mem hmem
  refine get?_systemEntries_of_last fun later hlater heq => ?_
  rw [List.map_append, List.map_cons, List.nodup_append'] at hnodup
  exact (List.nodup_cons.1 hnodup.2.1).1 (heq ▸ List.mem_map_of_mem hlater)

theorem get?_stamped (entries : Dict Str Entry) (name : Str) :
    (entries.updateWhere (fun entry => entry.status = .executed) Entry.stamp).get? name =
      (entries.get? name).map fun entry =>
        if entry.status = .executed then entry.stamp else entry :=
  Dict.get?_updateWhere _ _ entries name

end Entries

end AdversarialCognition.Report
