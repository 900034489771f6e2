import AdversarialCognition.Report.Bounded

/-!
# One bad adapter

Whatever comes of the command of a system, its entry is its own: `unaffected`. But there is one
report of all, and whether there is one depends on what came of each command: `survives_iff`.

## What suppresses a report

Two things end without a report. An exception that leaves `execute_external` goes through
`execute_systems` and the builder, since nothing catches it on the way: the timeout that is no
integer, and the last words of an adapter that ran out of time. And a report that was assembled
can fail its check. `RunBounded` is that neither comes of a command, and `built_iff` has it for
all selected systems at once.

The condition is on what the commands do and on the suite, and both directions are for every
selection of known systems. That a name is unknown raises before any of this.

## What is assumed

The context of a report and the outcomes of the reference are the benchmark's own. That their
texts are bounded is assumed, and is shown of the context and the runner that the examples use.
-/

namespace AdversarialCognition.Report

open Py Py.Str Json

/-!
## The reports of the selected systems

A report for each system that was selected, and for no other, unless one of the runs raises. No
name is there twice, so each entry is that of its own system.
-/

/-- The systems that can be selected: the reference, and those of the registry. -/
def knownSystems (benchmarkVersion : ℕ) : List Str :=
  lit "marciana" :: (externalSystems benchmarkVersion).map Prod.fst

theorem nodup_knownSystems (benchmarkVersion : ℕ) : (knownSystems benchmarkVersion).Nodup := by
  unfold knownSystems externalSystems
  split
  · simp [externalSystemsV2]
  · simp [externalSystemsV1]

theorem boundedText_externalSystems {benchmarkVersion : ℕ} {entry : Str × Str}
    (h : entry ∈ externalSystems benchmarkVersion) :
    boundedText entry.1 = true ∧ boundedText entry.2 = true := by
  have hall : ∀ entry ∈ externalSystemsV1 ++ externalSystemsV2,
      boundedText entry.1 = true ∧ boundedText entry.2 = true := by decide
  apply hall
  rw [externalSystems] at h
  split at h
  · exact List.mem_append_right _ h
  · exact List.mem_append_left _ h

section Selected

variable [Runtime] [Numerics]

/-- What `execute_systems` does with the systems, where it knows them. -/
def selectedReports (selected : List Str) (suite : List SuiteCase) (runs : Str → AdapterRun)
    (benchmarkVersion : ℕ) (runner : SuiteCase → ReferenceRun) :
    Except Raised (List SystemReport) := do
  let external ← ((externalSystems benchmarkVersion).filter fun entry => entry.1 ∈ selected).mapM
    fun entry => executeExternal entry.1 entry.2 suite benchmarkVersion (runs entry.1)
  return (if lit "marciana" ∈ selected then [executeMarciana suite runner] else []) ++ external

variable {selected : List Str} {suite : List SuiteCase} {runs : Str → AdapterRun}
  {benchmarkVersion : ℕ} {runner : SuiteCase → ReferenceRun} {systems : List SystemReport}

/-- Where all names are known nothing raises before the systems are run. -/
theorem executeSystems_of_known (h : ∀ name ∈ selected, name ∈ knownSystems benchmarkVersion) :
    executeSystems selected suite runs benchmarkVersion runner =
      selectedReports selected suite runs benchmarkVersion runner := by
  have hunknown : selected.dedup.filter (· ∉ knownSystems benchmarkVersion) = [] := by
    simp only [List.filter_eq_nil_iff, List.mem_dedup, decide_eq_true_iff, not_not]
    exact h
  unfold knownSystems at hunknown
  unfold executeSystems
  simp only [hunknown, ne_eq, not_true_eq_false, if_false]
  rfl

/-- The reports are those of the reference, and of each selected system in turn. -/
theorem selectedReports_spec
    (h : selectedReports selected suite runs benchmarkVersion runner = .ok systems) :
    ∃ external, systems =
        (if lit "marciana" ∈ selected then [executeMarciana suite runner] else []) ++ external ∧
      List.Forall₂ (fun entry report => executeExternal entry.1 entry.2 suite benchmarkVersion
          (runs entry.1) = .ok report)
        ((externalSystems benchmarkVersion).filter fun entry => entry.1 ∈ selected) external := by
  obtain ⟨external, hexternal, h⟩ := bind_eq_ok_iff.1 h
  cases h
  exact ⟨external, rfl, forall₂_of_mapM hexternal⟩

/-- There are reports unless one of the runs raises. -/
theorem exists_selectedReports (h : ∀ entry ∈ externalSystems benchmarkVersion, entry.1 ∈ selected →
    ∃ report, executeExternal entry.1 entry.2 suite benchmarkVersion (runs entry.1) = .ok report) :
    ∃ systems, selectedReports selected suite runs benchmarkVersion runner = .ok systems := by
  have hruns : ∀ entry ∈ (externalSystems benchmarkVersion).filter fun entry => entry.1 ∈ selected,
      ∃ report, executeExternal entry.1 entry.2 suite benchmarkVersion (runs entry.1) = .ok report ∧
        True := by
    intro entry hentry
    obtain ⟨hmem, hname⟩ := List.mem_filter.1 hentry
    obtain ⟨report, hreport⟩ := h entry hmem (of_decide_eq_true hname)
    exact ⟨report, hreport, trivial⟩
  obtain ⟨external, hexternal, -⟩ := mapM_forall₂ hruns
  exact ⟨_, bind_eq_ok_iff.2 ⟨external, hexternal, rfl⟩⟩

theorem mem_selectedReports_iff
    (h : selectedReports selected suite runs benchmarkVersion runner = .ok systems)
    {report : SystemReport} : report ∈ systems ↔
      (lit "marciana" ∈ selected ∧ report = executeMarciana suite runner) ∨
        ∃ entry ∈ externalSystems benchmarkVersion, entry.1 ∈ selected ∧
          executeExternal entry.1 entry.2 suite benchmarkVersion (runs entry.1) = .ok report := by
  obtain ⟨external, rfl, hall⟩ := selectedReports_spec h
  rw [List.mem_append]
  refine or_congr ?_ ?_
  · split <;> simp_all
  · constructor
    · intro hmem
      obtain ⟨entry, hentry, hrun⟩ := exists_mem_of_forall₂ hall.flip report hmem
      obtain ⟨hentry, hname⟩ := List.mem_filter.1 hentry
      exact ⟨entry, hentry, of_decide_eq_true hname, hrun⟩
    · rintro ⟨entry, hentry, hname, hrun⟩
      have hmem : entry ∈ (externalSystems benchmarkVersion).filter fun entry => entry.1 ∈ selected :=
        List.mem_filter.2 ⟨hentry, decide_eq_true hname⟩
      obtain ⟨found, hfound, heq⟩ := exists_mem_of_forall₂ hall entry hmem
      rw [hrun] at heq
      cases heq
      exact hfound

theorem nodup_selectedReports
    (h : selectedReports selected suite runs benchmarkVersion runner = .ok systems) :
    (systems.map (·.system)).Nodup := by
  have hknown : ([lit "marciana"] ++ (externalSystems benchmarkVersion).map Prod.fst).Nodup :=
    nodup_knownSystems benchmarkVersion
  obtain ⟨external, rfl, hall⟩ := selectedReports_spec h
  refine hknown.sublist ?_
  have hnames : external.map (·.system) =
      ((externalSystems benchmarkVersion).filter fun entry => entry.1 ∈ selected).map Prod.fst :=
    map_eq_map_of_forall₂ hall fun entry report hrun => executeExternal_system hrun
  rw [List.map_append, hnames]
  refine List.Sublist.append ?_ (List.filter_sublist.map _)
  split <;> simp [executeMarciana]

theorem get?_selectedReports
    (h : selectedReports selected suite runs benchmarkVersion runner = .ok systems)
    {entry : Str × Str} (hentry : entry ∈ externalSystems benchmarkVersion)
    (hselected : entry.1 ∈ selected) : ∃ report,
      executeExternal entry.1 entry.2 suite benchmarkVersion (runs entry.1) = .ok report ∧
        (systemEntries systems).get? entry.1 = some report.asDict := by
  obtain ⟨external, rfl, hall⟩ := selectedReports_spec h
  obtain ⟨report, hmem, hrun⟩ := exists_mem_of_forall₂ hall entry
    (List.mem_filter.2 ⟨hentry, decide_eq_true hselected⟩)
  refine ⟨report, hrun, ?_⟩
  have hget := get?_systemEntries_of_mem (nodup_selectedReports h) (List.mem_append_right _ hmem)
  rwa [executeExternal_system hrun] at hget

/-- The entries of two batches are the same where the runs are. -/
theorem get?_selectedReports_congr {runs' : Str → AdapterRun} {systems' : List SystemReport}
    (h : selectedReports selected suite runs benchmarkVersion runner = .ok systems)
    (h' : selectedReports selected suite runs' benchmarkVersion runner = .ok systems') {name : Str}
    (hruns : runs' name = runs name) :
    (systemEntries systems').get? name = (systemEntries systems).get? name := by
  have hforth : ∀ {runs runs' : Str → AdapterRun} {systems systems' : List SystemReport},
      selectedReports selected suite runs benchmarkVersion runner = .ok systems →
      selectedReports selected suite runs' benchmarkVersion runner = .ok systems' →
      runs' name = runs name → ∀ entry, (systemEntries systems).get? name = some entry →
        (systemEntries systems').get? name = some entry := by
    intro runs runs' systems systems' h h' hruns entry hentry
    obtain ⟨report, hmem, hname, rfl⟩ := get?_systemEntries hentry
    have hmem' : report ∈ systems' := by
      rw [mem_selectedReports_iff h] at hmem
      rw [mem_selectedReports_iff h']
      rcases hmem with hreference | ⟨found, hfound, hselected, hrun⟩
      · exact .inl hreference
      · have hfoundName : found.1 = name := hname ▸ (executeExternal_system hrun).symm
        refine .inr ⟨found, hfound, hselected, ?_⟩
        rw [hfoundName, hruns, ← hfoundName]
        exact hrun
    rw [← hname]
    exact get?_systemEntries_of_mem (nodup_selectedReports h') hmem'
  refine Option.ext fun entry => ?_
  exact ⟨hforth h' h hruns.symm entry, hforth h h' hruns entry⟩

theorem reference?_selectedReports
    (h : selectedReports selected suite runs benchmarkVersion runner = .ok systems) :
    reference? systems =
      if lit "marciana" ∈ selected then some (executeMarciana suite runner) else none := by
  obtain ⟨external, hsystems, -⟩ := selectedReports_spec h
  by_cases hmarciana : lit "marciana" ∈ selected
  · simp [reference?, hsystems, hmarciana, executeMarciana]
  · rw [if_neg hmarciana]
    refine List.find?_eq_none.2 fun report hreport hname => ?_
    rw [decide_eq_true_iff] at hname
    rcases (mem_selectedReports_iff h).1 hreport with ⟨hselected, -⟩ | ⟨entry, -, hselected, hrun⟩
    · exact hmarciana hselected
    · rw [executeExternal_system hrun] at hname
      exact hmarciana (hname ▸ hselected)

end Selected

/-!
## The report of all

There is one exactly if every run is bounded. The entries are then those of the runs, and what the
command of another system did does not show in them.
-/

section Law

variable [Runtime] [Numerics]

/-- `build_report` on what `execute_systems` returns. -/
def reportOf (context : ReportContext) (selected : List Str) (suite : List SuiteCase)
    (runs : Str → AdapterRun) (benchmarkVersion : ℕ) (runner : SuiteCase → ReferenceRun) :
    Except Raised BenchmarkReport := do
  let systems ← executeSystems selected suite runs benchmarkVersion runner
  buildReport context systems

/-- The reference run is bounded. -/
def ReferenceBounded (suite : List SuiteCase) (runner : SuiteCase → ReferenceRun) : Prop :=
  ∀ case ∈ suite, (referenceOutcome runner case).Bounded

/-- A bad adapter cannot suppress the report: there is one, every configured system that was
    selected is executed or an error in it, and what comes of a system changes its own entry
    and no other. -/
structure Survives (context : ReportContext) (selected : List Str) (suite : List SuiteCase)
    (runs : Str → AdapterRun) (benchmarkVersion : ℕ) (runner : SuiteCase → ReferenceRun) :
    Prop where
  built : ∃ report, reportOf context selected suite runs benchmarkVersion runner = .ok report
  status : ∀ report, reportOf context selected suite runs benchmarkVersion runner = .ok report →
    ∀ entry ∈ externalSystems benchmarkVersion, entry.1 ∈ selected →
      runs entry.1 ≠ .unconfigured → ∃ found, report.systems.get? entry.1 = some found ∧
        (found.status = .executed ∨ found.status = .error)
  unaffected : ∀ report name run report',
    reportOf context selected suite runs benchmarkVersion runner = .ok report →
    reportOf context selected suite (Function.update runs name run) benchmarkVersion runner =
      .ok report' →
    ∀ other, other ≠ name → report'.systems.get? other = report.systems.get? other

variable {context : ReportContext} {selected : List Str} {suite : List SuiteCase}
  {runs : Str → AdapterRun} {benchmarkVersion : ℕ} {runner : SuiteCase → ReferenceRun}

/-- **There is a report where there are reports of the systems, and they pass.** -/
theorem reportOf_eq_ok_iff (hselected : ∀ name ∈ selected, name ∈ knownSystems benchmarkVersion)
    {report : BenchmarkReport} :
    reportOf context selected suite runs benchmarkVersion runner = .ok report ↔
      ∃ systems, selectedReports selected suite runs benchmarkVersion runner = .ok systems ∧
        passes (assembleReport context systems).toJson = true ∧
          report = assembleReport context systems := by
  rw [reportOf, executeSystems_of_known hselected, bind_eq_ok_iff]
  exact exists_congr fun systems => and_congr_right fun _ => buildReport_eq_ok_iff

omit [Runtime] in
theorem bounded_executeMarciana (hrunner : ReferenceBounded suite runner) :
    (executeMarciana suite runner).Bounded where
  system := boundedText_ofList (by decide) (by decide)
  adapterVersion := boundedText_adapterProtocol
  missingConfiguration := List.forall_mem_nil _
  error := rfl
  interface := fun _ => boundedText_ofList (by decide) (by decide)
  outcomes := fun _ => List.forall_mem_map.2 hrunner
  harness := fun _ _ hharness => nomatch hharness

/-- The entries are bounded if the reports are: no entry has replaced another. -/
theorem entriesBounded_iff {systems : List SystemReport}
    (h : selectedReports selected suite runs benchmarkVersion runner = .ok systems) :
    EntriesBounded systems ↔ ∀ report ∈ systems, report.Bounded := by
  constructor
  · intro hentries report hreport
    obtain ⟨-, hentry⟩ := hentries (get?_systemEntries_of_mem (nodup_selectedReports h) hreport)
    exact bounded_asDict_iff.1 hentry
  · intro hall name entry hentry
    obtain ⟨report, hreport, rfl, rfl⟩ := get?_systemEntries hentry
    exact ⟨(hall report hreport).system, bounded_asDict_iff.2 (hall report hreport)⟩

/-- There is a report if and only if every run is bounded. -/
theorem built_iff (hcontext : context.Bounded) (hrunner : ReferenceBounded suite runner)
    (hselected : ∀ name ∈ selected, name ∈ knownSystems benchmarkVersion) :
    (∃ report, reportOf context selected suite runs benchmarkVersion runner = .ok report) ↔
      ∀ entry ∈ externalSystems benchmarkVersion, entry.1 ∈ selected →
        RunBounded suite benchmarkVersion (runs entry.1) := by
  have hsuite : SuiteBounded suite := fun case hcase =>
    ⟨(hrunner case hcase).caseId, (hrunner case hcase).category⟩
  -- each system is there and bounded by what came of its own command
  have hrun : ∀ entry ∈ externalSystems benchmarkVersion,
      (∃ report, executeExternal entry.1 entry.2 suite benchmarkVersion (runs entry.1) = .ok report ∧
        report.Bounded) ↔ RunBounded suite benchmarkVersion (runs entry.1) := fun entry hentry =>
    bounded_executeExternal_iff hsuite (boundedText_externalSystems hentry).1
      (boundedText_externalSystems hentry).2 _
  -- the cases of the report are those of the reference, which is bounded by hypothesis
  have hreference : ∀ {systems : List SystemReport},
      selectedReports selected suite runs benchmarkVersion runner = .ok systems →
        ∀ outcome ∈ referenceOutcomes systems, outcome.Bounded := by
    intro systems h
    unfold referenceOutcomes
    rw [reference?_selectedReports h]
    by_cases hmarciana : lit "marciana" ∈ selected
    · rw [if_pos hmarciana]
      exact List.forall_mem_map.2 hrunner
    · rw [if_neg hmarciana]
      exact List.forall_mem_nil _
  simp only [reportOf_eq_ok_iff hselected]
  constructor
  · rintro ⟨_, systems, h, hpasses, -⟩ entry hentry hname
    have hall := (entriesBounded_iff h).1
      ((passes_assembleReport_iff hcontext (hreference h)).1 hpasses)
    obtain ⟨report, hreport, -⟩ := get?_selectedReports h hentry hname
    refine (hrun entry hentry).1 ⟨report, hreport, hall report ?_⟩
    exact (mem_selectedReports_iff h).2 (.inr ⟨entry, hentry, hname, hreport⟩)
  · intro hruns
    have hexists : ∃ systems, selectedReports selected suite runs benchmarkVersion runner =
        .ok systems := by
      apply exists_selectedReports
      intro entry hentry hname
      obtain ⟨report, hreport, -⟩ := (hrun entry hentry).2 (hruns entry hentry hname)
      exact ⟨report, hreport⟩
    obtain ⟨systems, h⟩ := hexists
    refine ⟨_, systems, h, ?_, rfl⟩
    rw [passes_assembleReport_iff hcontext (hreference h), entriesBounded_iff h]
    intro report hreport
    rcases (mem_selectedReports_iff h).1 hreport with ⟨-, rfl⟩ | ⟨entry, hentry, hname, hfound⟩
    -- an entry is the reference, or that of one command
    · exact bounded_executeMarciana hrunner
    · obtain ⟨other, hother, hbounded⟩ := (hrun entry hentry).2 (hruns entry hentry hname)
      rw [hfound] at hother
      cases hother
      exact hbounded

omit [Runtime] in
theorem get?_assembled (context : ReportContext) (systems : List SystemReport) (name : Str) :
    (assembleReport context systems).systems.get? name =
      ((systemEntries systems).get? name).map
        fun entry => if context.benchmark = benchmarkV2 ∧ entry.status = .executed then entry.stamp
          else entry := by
  by_cases hversion : context.benchmark = benchmarkV2
  · simp only [assembleReport, hversion, if_true, true_and]
    exact get?_stamped _ _
  · simp only [assembleReport, hversion, if_false, false_and]
    rw [Option.map_id']

/-- A system whose command came to something is executed or an error. -/
theorem status_executeExternal {system commandVariable : Str} {run : AdapterRun}
    {report : SystemReport}
    (h : executeExternal system commandVariable suite benchmarkVersion run = .ok report)
    (hrun : run ≠ .unconfigured) : report.status = .executed ∨ report.status = .error := by
  rcases executeExternal_cases h with ⟨heq, -⟩ | ⟨-, message, rfl⟩ | ⟨found, -, rfl⟩
  · exact absurd heq hrun
  · exact .inr rfl
  · exact .inl rfl

/-- **One adapter cannot suppress the report if and only if** no payload that is accepted is
    unbounded, no exception has a newline in its text, and no adapter runs out of time with
    something on its stderr. The parse bounds less than the walk over the finished report asks
    for, and that walk raises for all systems together. -/
theorem survives_iff (hcontext : context.Bounded) (hrunner : ReferenceBounded suite runner)
    (hselected : ∀ name ∈ selected, name ∈ knownSystems benchmarkVersion) :
    Survives context selected suite runs benchmarkVersion runner ↔
      ∀ entry ∈ externalSystems benchmarkVersion, entry.1 ∈ selected →
        RunBounded suite benchmarkVersion (runs entry.1) := by
  rw [← built_iff hcontext hrunner hselected]
  refine ⟨Survives.built, fun hbuilt => ⟨hbuilt, ?_, ?_⟩⟩
  · intro report hreport entry hentry hname hrun
    obtain ⟨systems, h, -, rfl⟩ := (reportOf_eq_ok_iff hselected).1 hreport
    obtain ⟨found, hfound, hget⟩ := get?_selectedReports h hentry hname
    rw [get?_assembled, hget]
    refine ⟨_, rfl, ?_⟩
    dsimp only
    split <;> exact status_executeExternal hfound hrun
  · intro report name run report' hreport hreport' other hother
    obtain ⟨systems, h, -, rfl⟩ := (reportOf_eq_ok_iff hselected).1 hreport
    obtain ⟨systems', h', -, rfl⟩ := (reportOf_eq_ok_iff hselected).1 hreport'
    -- an entry depends on the run of its own system alone
    have hsame : Function.update runs name run other = runs other :=
      Function.update_of_ne hother _ _
    rw [get?_assembled, get?_assembled, get?_selectedReports_congr h h' hsame]

end Law

/-!
## A version with a newline

The version is cut to length and not looked into, so a newline in it gets into the entry, and the
check refuses the report of all.
-/

section Examples

attribute [local instance] cpython Numerics.verbatim

def plainContext : ReportContext where
  metadata := []
  manifestDigest := "sha256:corpus"
  receiptMismatches := 0
  formationUs := "1.0"
  restartUs := "1.0"
  corpora := []
  benchmark := benchmarkV2
  percentile _ _ := "0.0"

def plainRunner (_ : SuiteCase) : ReferenceRun where
  correct := true
  allowed := true
  ids := []
  receipt := []
  elapsedUs := "1.0"

/-- A payload of one row, with a version. -/
def versionPayload (version : String) : Json :=
  .obj [("adapter_version", .str version), ("interface", .str "direct-api"),
    ("cases", .list [plainRow "a" true])]

theorem bounded_plainContext : plainContext.Bounded where
  benchmark := boundedText_ofList (by decide) (by decide)
  manifestDigest := boundedText_ofList (by decide) (by decide)
  metadata := List.forall_mem_nil _
  corpora := rfl
  inventory := by decide

theorem referenceBounded_plainRunner : ReferenceBounded [suiteCase "a"] plainRunner := by
  refine List.forall_mem_singleton.2 ⟨?_, ?_, List.forall_mem_nil _, rfl⟩
  · exact boundedText_ofList (by decide) (by decide)
  · exact boundedText_ofList (by decide) (by decide)

theorem parse_versionPayload (version : String) :
    Json.parse (versionPayload version).dumps = .ok (versionPayload version) := by
  have hdepth : (versionPayload version).depth = 3 := rfl
  refine Json.parse_dumps ?_ (hdepth ▸ le_trans (by decide) Decoder.ample)
  simp [versionPayload, Json.Printable, Json.PrintableMembers, Json.PrintableItems, encodable_lit,
    printable_plainRow]

theorem versionPayload_accepted (version : String) : ∃ found,
    parseExternalOutcomes (versionPayload version).dumps [suiteCase "a"] 2 = .ok found ∧
      found.version = (lit version).take 64 ∧ found.interface = lit "direct-api" ∧
      found.harness = none := by
  have hsame : SameIds [plainRow "a" true] [suiteCase "a"] := fun id => Iff.rfl
  exact accepted_of_header (parse_versionPayload version) rfl rfl
    (List.forall_mem_singleton.2 (rowWellFormed_plainRow _ _)) hsame

theorem rowBounded_plainRow {row : Json}
    (h : (rowsOf (suiteCase "a").caseId [plainRow "a" true]).getLast? = some row) :
    RowBounded row := by
  cases h
  refine ⟨fun value ids hvalue hids => ?_, fun value hvalue => ?_⟩
  · cases hvalue
    cases hids
    exact List.forall_mem_nil _
  · cases hvalue
    rfl

theorem runBounded_versionPayload_iff (version : String) :
    RunBounded [suiteCase "a"] 2 (.printed (versionPayload version).dumps) ↔
      OneLine ((lit version).take 64) := by
  obtain ⟨found, hfound, -⟩ := versionPayload_accepted version
  simp only [RunBounded, parse_versionPayload, hfound, Except.ok.injEq, forall_eq', exists_eq',
    forall_const]
  constructor
  · intro h
    exact h.1.version (.str version) rfl
  · intro h
    refine ⟨⟨fun value hvalue => ?_, fun value hvalue => ?_, fun _ value items hvalue hloop => ?_⟩,
      fun value rows hvalue hrows => List.forall_mem_singleton.2 fun row hrow => ?_⟩
    · cases hvalue
      exact h
    · cases hvalue
      exact (oneLine_ofList (by decide)).take 32
    · cases hvalue
      have hdirect : (lit "direct-api").take 32 = lit "agent-loop" := hloop
      exact absurd hdirect (by decide)
    · cases hvalue
      cases hrows
      exact rowBounded_plainRow hrow

/-- An adapter that prints its version on a line of its own. -/
def lineVersion : AdapterRun := .printed (versionPayload "mem0 1.0\n").dumps

/-- The version is read, and there is no report. -/
theorem lineVersion_suppresses : ReferenceBounded [suiteCase "a"] plainRunner ∧
    plainContext.Bounded ∧ ¬ Survives plainContext ["marciana", "mem0"] [suiteCase "a"]
      (fun _ => lineVersion) 2 plainRunner := by
  refine ⟨referenceBounded_plainRunner, bounded_plainContext, fun h => ?_⟩
  have hknown : ∀ name ∈ [lit "marciana", lit "mem0"], name ∈ knownSystems 2 := by decide
  have hbounded := (built_iff bounded_plainContext referenceBounded_plainRunner
    hknown).1 h.built ("mem0", "MARCIANA_ADVERSARIAL_MEM0_CMD") List.mem_cons_self (by decide)
  have hline := (runBounded_versionPayload_iff "mem0 1.0\n").1 hbounded
  have hnewline : CodePoint.ofChar '\n' ∈ (lit "mem0 1.0\n").take 64 := by decide
  exact hline hnewline

/-- The same adapter without the newline in its version does not take the report away. -/
theorem survives_plain : Survives plainContext ["marciana", "mem0"] [suiteCase "a"]
    (fun _ => .printed (versionPayload "mem0 1.0").dumps) 2 plainRunner := by
  refine (survives_iff bounded_plainContext referenceBounded_plainRunner (by decide)).2 ?_
  intro entry _ _
  exact (runBounded_versionPayload_iff "mem0 1.0").2 ((oneLine_ofList (by decide)).take 64)

end Examples

end AdversarialCognition.Report
