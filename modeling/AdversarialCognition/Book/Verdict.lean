import AdversarialCognition.Book.Comparison

/-!
# The verdict of a comparison

`build_report` and `assert_bounded` of the two `report.py` files, and `main` of `run_benchmark.py`
between the suite and the report.

## The verdict

What the run of a benchmark comes to is decided by the reference alone: it is incomplete without
one, and passes if the reference gets every case under a gate right. No other system counts.

## The report

What the other systems can do is to take the report away, and `verdict_iff` says how. A text that
`assert_bounded` refuses has a newline in it or is too long. All names and gates are known, and
every error is cut before it is put into an entry; what is left is

* a version with a newline in it,
* the text of an exception with one among its first 256 characters, where the adapter complained
  of nothing itself,
* a timeout variable that holds no integer, which is raised before anything is caught,
* the context, whose texts are not the comparison's own.

Each of the first three is a condition on what came of one command (`RunBounded`), and the theorem
is an equivalence.

## What is not modelled

The printed report and the files that `main` writes, and how the corpus digest and the metadata
come about.
-/

namespace AdversarialCognition.Comparison

open Py Py.Str Json

/-!
## The report

How entries are put into a report, and the walk over it that bounds its texts. The walk is over
what is printed, so each part has its form in JSON beside it.
-/

section Report

variable [Numerics]

/-- A row, as the report has it. -/
def Row.toJson (row : Row) : Json := .obj [
  ("case_id", .str row.caseId),
  ("capability", .str row.capability),
  ("gate", .str row.gate),
  ("supported", .bool row.supported),
  ("correct", .bool row.correct)]

/-- The summary, beside the rows. -/
def Summary.toJson (summary : Summary) : Json := .obj [
  ("supported", .int summary.supported),
  ("correct", .int summary.correct),
  ("unsupported", .int summary.unsupported),
  ("accuracy", .float summary.accuracy)]

/-- `catalog_status` and `system_status` of a system that was executed. -/
def resultText (gates : Dict Str ℕ) : Str := if tripped gates then lit "fail" else lit "pass"

/-- An entry, with the result that `main` puts into it. -/
def Entry.toJson (b : Benchmark) : Entry → Json
  | .unavailable system commandVariable => .obj [
      (b.entryKey, .str system),
      (lit "status", .str "unavailable"),
      (lit "missing_configuration", strs [commandVariable])]
  | .error system message => .obj [
      (b.entryKey, .str system),
      (lit "status", .str "error"),
      (lit "error", .str message)]
  | .executed system run => .obj [
      (b.entryKey, .str system),
      (lit "adapter_version", .str run.version),
      (lit "status", .str "executed"),
      (lit "capabilities", strs run.capabilities),
      (lit "hard_gates", .obj (run.gates.items.map fun item => (item.1, .int item.2))),
      (lit "summary", (summarize run.rows).toJson),
      (lit "cases", .list (run.rows.map (·.toJson))),
      (lit "result", .str (resultText run.gates))]

/-- The status of the report: that of the reference. -/
def overallStatus (entries : List Entry) : Report.OverallStatus :=
  match entries.find? fun entry => entry.system = lit "reference" with
  | some (.executed _ run) => if tripped run.gates then .fail else .pass
  | _ => .incomplete

/-- What a report says besides its entries. -/
structure Context where
  corpusDigest : Str
  metadata : List (Str × Str)

/-- What `build_report` makes of the entries: the status of the reference and the entries as they
    are. -/
structure ComparisonReport where
  status : Report.OverallStatus
  entries : List Entry

/-- The report, as it is printed and walked. -/
def ComparisonReport.toJson (b : Benchmark) (context : Context) (report : ComparisonReport) : Json :=
  .obj [
    (lit "benchmark", .str b.name),
    (lit "corpus_digest", .str context.corpusDigest),
    (lit "status", .str report.status.text),
    (lit "metadata", .obj (context.metadata.map fun item => (item.1, .str item.2))),
    (b.entriesKey, .list (report.entries.map (·.toJson b)))]

/-- `build_report`. `assert_bounded` is the walk of the benchmark's own report. -/
def buildReport (b : Benchmark) (context : Context) (entries : List Entry) :
    Except Raised ComparisonReport :=
  let report := { status := overallStatus entries, entries := entries : ComparisonReport }
  if Report.bounded (report.toJson b context) then .ok report
  else .error ⟨.valueError, b.unboundedText⟩

/-- `main`, from the suite to the report. -/
def runBenchmark [Runtime] (b : Benchmark) (selected : List Str) (suite : List Case)
    (runs : Str → CommandRun) (reference : Case → Bool) (context : Context) :
    Except Raised ComparisonReport := do
  let entries ← executeSystems b selected suite runs reference
  buildReport b context entries

end Report

/-!
## Which reports there are

A report is refused if a text in it is too long or has a line break. Most of its texts are the
benchmark's own, and are read off. What is left are the context, the version that an adapter gives
of itself, and the text of an exception.
-/

section Bounded

open Report (boundedText bounded boundedText_ofList boundedMembers_cons boundedMembers_lit
  boundedMembers_iff boundedItems_iff bounded_strs_iff boundedText_take_iff)

/-- The texts that a benchmark reports with, whatever the systems are. -/
def Benchmark.texts (b : Benchmark) : List Str :=
  b.capabilities ++ b.gates ++ b.systems ++ b.externals.map Prod.snd ++
    [b.name, b.referenceVersion, b.entryKey, b.entriesKey]

theorem boundedText_texts (b : Benchmark) : ∀ text ∈ b.texts, boundedText text = true := by
  cases b with
  | catalogProvenance =>
    repeat' first
      | exact List.forall_mem_nil _
      | refine List.forall_mem_cons.2 ⟨boundedText_ofList (by decide) (by decide), ?_⟩
  | capabilityAdversarial =>
    repeat' first
      | exact List.forall_mem_nil _
      | refine List.forall_mem_cons.2 ⟨boundedText_ofList (by decide) (by decide), ?_⟩

theorem boundedText_words (b : Benchmark) : boundedText b.name = true ∧
    boundedText b.referenceVersion = true ∧ boundedText b.entryKey = true ∧
      boundedText b.entriesKey = true := by
  refine ⟨?_, ?_, ?_, ?_⟩
  all_goals exact boundedText_texts b _ (by simp [Benchmark.texts])

theorem boundedText_variable {b : Benchmark} {external : Str × Str} (h : external ∈ b.externals) :
    boundedText external.2 = true := by
  have hmem : external.2 ∈ b.externals.map Prod.snd := List.mem_map_of_mem h
  exact boundedText_texts b _ (by simp [Benchmark.texts, hmem])

theorem boundedText_capability {b : Benchmark} {name : Str} (h : name ∈ b.capabilities) :
    boundedText name = true :=
  boundedText_texts b name (by simp [Benchmark.texts, h])

theorem boundedText_gate {b : Benchmark} {name : Str} (h : name ∈ b.gates) :
    boundedText name = true :=
  boundedText_texts b name (by simp [Benchmark.texts, h])

theorem boundedText_system {b : Benchmark} {name : Str} (h : name ∈ b.systems) :
    boundedText name = true :=
  boundedText_texts b name (by simp [Benchmark.texts, h])

/-- The texts of a context. -/
structure Context.Bounded (context : Context) : Prop where
  corpusDigest : boundedText context.corpusDigest = true
  metadata : ∀ item ∈ context.metadata, boundedText item.1 = true ∧ boundedText item.2 = true

variable [Numerics] {b : Benchmark} {suite : Suite b}

omit [Numerics] in
theorem bounded_row {claims : List Str} {case : Case} (hcase : case ∈ suite.cases) {row : Row}
    (h : Credited claims case row) : bounded row.toJson = true := by
  have hgate : boundedText row.gate = true := by
    by_cases hnil : case.gate = []
    · rw [h.gate, hnil]
      rfl
    · rw [h.gate]
      exact boundedText_gate (suite.guarded case hcase hnil)
  rw [Row.toJson, bounded, boundedMembers_lit (by decide) (by decide),
    boundedMembers_lit (by decide) (by decide),
    boundedMembers_lit (by decide) (by decide),
    boundedMembers_lit (by decide) (by decide),
    boundedMembers_lit (by decide) (by decide)]
  refine ⟨?_, ?_, hgate, rfl, rfl, rfl⟩
  · rw [h.caseId]
    exact suite.short case hcase
  · rw [h.capability]
    exact boundedText_capability (suite.known case hcase)

/-- Of what is scored, only the version is the adapter's own. -/
theorem bounded_executed_iff {system : Str} (hsystem : system ∈ b.systems) {run : Executed}
    (h : Scored suite run) : bounded ((Entry.executed system run).toJson b) = true ↔
      boundedText run.version = true := by
  obtain ⟨-, -, hentry, -⟩ := boundedText_words b
  have hcapabilities : bounded (strs run.capabilities) = true :=
    bounded_strs_iff.2 fun name hmem => boundedText_capability (h.known name hmem)
  -- the gates and the capabilities are those of the benchmark
  have hgates : bounded (.obj (run.gates.items.map fun item => (item.1, .int item.2))) = true := by
    rw [bounded, boundedMembers_iff, List.forall_mem_map]
    intro item hitem
    have hget := Dict.mem_items_iff.1 hitem
    rw [h.gates item.1] at hget
    split at hget
    · rename_i hmem
      exact ⟨boundedText_gate hmem, rfl⟩
    · cases hget
  have hrows : bounded (.list (run.rows.map (·.toJson))) = true := by
    rw [bounded, boundedItems_iff, List.forall_mem_map]
    exact Py.forall_mem_of_forall₂ h.rows fun case hcase row hrow => bounded_row hcase hrow
  have hsummary : bounded (summarize run.rows).toJson = true := rfl
  have hresult : bounded (.str (resultText run.gates)) = true := by
    rw [resultText]
    split
    · rfl
    · rfl
  rw [Entry.toJson, bounded, boundedMembers_cons hentry,
    boundedMembers_lit (by decide) (by decide),
    boundedMembers_lit (by decide) (by decide),
    boundedMembers_lit (by decide) (by decide),
    boundedMembers_lit (by decide) (by decide),
    boundedMembers_lit (by decide) (by decide),
    boundedMembers_lit (by decide) (by decide),
    boundedMembers_lit (by decide) (by decide)]
  constructor
  · intro hall
    exact hall.2.1
  · intro hversion
    exact ⟨boundedText_system hsystem, hversion, rfl, hcapabilities, hgates, hsummary, hrows,
      hresult, rfl⟩

variable [Runtime]

/-- What came of a command does not take the report away. -/
def RunBounded (b : Benchmark) (suite : List Case) : CommandRun → Prop
  | .unconfigured => True
  | .badTimeout _ => False
  | .exited text stderr => splitlines stderr.strip ≠ [] ∨ OneLine (text.take maxErrorChars)
  | .raised text => OneLine (text.take maxErrorChars)
  | .printed stdout => ∀ found, parsePayload b stdout suite = .ok found → OneLine found.version

omit [Runtime] in
/-- An error fits if what is left of it, once it is cut, is of one line. -/
theorem bounded_error_iff {system message : Str} (hsystem : system ∈ b.systems) :
    bounded ((Entry.error system (message.take maxErrorChars)).toJson b) = true ↔
      OneLine (message.take maxErrorChars) := by
  obtain ⟨-, -, hentry, -⟩ := boundedText_words b
  rw [Entry.toJson, bounded, boundedMembers_cons hentry,
    boundedMembers_lit (by decide) (by decide),
    boundedMembers_lit (by decide) (by decide),
    ← boundedText_take_iff (show maxErrorChars ≤ 256 from le_rfl)]
  constructor
  · intro hall
    exact hall.2.2.1
  · intro hmessage
    exact ⟨boundedText_system hsystem, rfl, hmessage, rfl⟩

omit [Numerics] [Runtime] in
/-- The last line of what an adapter complained of is one line. -/
theorem oneLine_exitDetail {text stderr : Str} (h : splitlines stderr.strip ≠ []) :
    OneLine (exitDetail text stderr) := by
  obtain ⟨line, hline⟩ := Option.ne_none_iff_exists'.1 (mt List.getLast?_eq_none_iff.1 h)
  rw [exitDetail, hline]
  intro hmem
  -- a newline is where a line would have ended
  have hbreak := unbroken_of_mem_splitlines (List.mem_of_getLast? hline) _ hmem
  exact absurd hbreak (by decide)

/-- **An entry is bounded as far as what came of its command is.** -/
theorem bounded_executeExternal (suite : Suite b) {external : Str × Str}
    (hexternal : external ∈ b.externals) {run : CommandRun} (htimed : ∀ e, run ≠ .badTimeout e) :
    ∃ entry, executeExternal b external.1 external.2 suite.cases run = .ok entry ∧
      entry.system = external.1 ∧
      (bounded (entry.toJson b) = true ↔ RunBounded b suite.cases run) := by
  have hsystem : external.1 ∈ b.systems := List.mem_cons_of_mem _ (List.mem_map_of_mem hexternal)
  obtain ⟨-, -, hentry, -⟩ := boundedText_words b
  cases run with
  | unconfigured =>
    refine ⟨_, rfl, rfl, iff_of_true ?_ trivial⟩
    rw [Entry.toJson, bounded, boundedMembers_cons hentry,
      boundedMembers_lit (by decide) (by decide),
      boundedMembers_lit (by decide) (by decide)]
    refine ⟨boundedText_system hsystem, rfl, bounded_strs_iff.2 ?_, rfl⟩
    exact List.forall_mem_singleton.2 (boundedText_variable hexternal)
  | badTimeout error => exact absurd rfl (htimed error)
  | exited text stderr =>
    refine ⟨_, rfl, rfl, ?_⟩
    rw [bounded_error_iff hsystem, RunBounded]
    by_cases hlines : splitlines stderr.strip = []
    · rw [exitDetail, hlines]
      simp
    · exact iff_of_true ((oneLine_exitDetail hlines).take _) (.inl hlines)
  | raised text => exact ⟨_, rfl, rfl, bounded_error_iff hsystem⟩
  | printed stdout =>
    cases hparse : parsePayload b stdout suite.cases with
    | error e =>
      -- a payload that is refused is refused in one line
      have hplain : OneLine e.text := raises_parsePayload b stdout suite.cases e hparse
      refine ⟨.error external.1 (e.text.take maxErrorChars), by rw [executeExternal, hparse], rfl, ?_⟩
      rw [bounded_error_iff hsystem]
      refine iff_of_true (hplain.take _) fun found hfound => ?_
      rw [hparse] at hfound
      cases hfound
    | ok found =>
      obtain ⟨hcredited, hknown, version, hversion⟩ := parsePayload_cases hparse
      obtain ⟨run, hrun, hsame, -, -, hscored⟩ :=
        scored_finish hcredited hknown external.1 found.version
      refine ⟨.executed external.1 run, by rw [executeExternal, hparse]; exact hrun, rfl, ?_⟩
      rw [bounded_executed_iff hsystem hscored, hsame, hversion,
        boundedText_take_iff (show 64 ≤ 256 by omega), RunBounded, hparse]
      simp only [Except.ok.injEq, forall_eq', hversion]

/-!
## The verdict

The reference comes first, then each external system that was selected. The status of the report
is that of the reference, so no other system has a part in it, except that a timeout that is no
integer takes the report away.
-/

omit [Numerics] [Runtime] in
theorem reference_notMem_externals (b : Benchmark) : lit "reference" ∉ b.externals.map Prod.fst := by
  cases b with
  | catalogProvenance => simp [Benchmark.externals]
  | capabilityAdversarial => simp [Benchmark.externals]

variable {selected : List Str} {runs : Str → CommandRun} {reference : Case → Bool}
  {context : Context}

/-- The reference is bounded, and has a gate tripped if a case under a gate is wrong. -/
theorem runReference_spec (suite : Suite b) (reference : Case → Bool) :
    ∃ run, runReference b suite.cases reference = .ok (.executed "reference" run) ∧
      bounded ((Entry.executed "reference" run).toJson b) = true ∧
      (tripped run.gates = true ↔
        ∃ case ∈ suite.cases, case.gate ≠ [] ∧ reference case = false) := by
  obtain ⟨run, hrun, hversion, hrows, -, hscored⟩ :=
    scored_finish (credited_reference suite reference) (fun _ hmem => hmem) "reference"
      b.referenceVersion
  refine ⟨run, hrun, ?_, ?_⟩
  · rw [bounded_executed_iff List.mem_cons_self hscored, hversion]
    exact (boundedText_words b).2.1
  · rw [hscored.result, hrows]
    simp only [List.mem_map, exists_exists_and_eq_and, Row.Violates, caseRow, true_and]

/-- No selected command is configured beside a timeout that is no integer. -/
def Timed (b : Benchmark) (selected : List Str) (runs : Str → CommandRun) : Prop :=
  ∀ external ∈ b.externals, external.1 ∈ selected → ∀ e, runs external.1 ≠ .badTimeout e

/-- A timeout that is no integer is raised out of the comparison. -/
theorem timed_of_executeSystems {suite : List Case} {entries : List Entry}
    (h : executeSystems b selected suite runs reference = .ok entries) : Timed b selected runs := by
  intro external hmem hselected e hbad
  unfold executeSystems at h
  obtain ⟨-, h⟩ := ite_throw_eq_ok_iff.1 h
  have hothers : ∃ others, (b.externals.filter fun external => external.1 ∈ selected).mapM
      (fun external => executeExternal b external.1 external.2 suite (runs external.1)) =
        .ok others := by
    dsimp only at h
    split_ifs at h
    all_goals
      obtain ⟨first, -, h⟩ := bind_eq_ok_iff.1 h
      obtain ⟨others, hothers, -⟩ := bind_eq_ok_iff.1 h
      exact ⟨others, hothers⟩
  obtain ⟨others, hothers⟩ := hothers
  have hfilter : external ∈ b.externals.filter fun external => external.1 ∈ selected :=
    List.mem_filter.2 ⟨hmem, decide_eq_true hselected⟩
  obtain ⟨entry, -, hentry⟩ := exists_mem_of_forall₂ (forall₂_of_mapM hothers) external hfilter
  rw [hbad, executeExternal] at hentry
  cases hentry

/-- What `execute_systems` returns: the reference first, if it is selected, and then an entry for
    each external that is. -/
theorem executeSystems_spec (suite : Suite b) (runs : Str → CommandRun) (reference : Case → Bool)
    (hselected : ∀ name ∈ selected, name ∈ b.systems) (htimed : Timed b selected runs) :
    ∃ entries, executeSystems b selected suite.cases runs reference = .ok entries ∧
      ((∀ entry ∈ entries, bounded (entry.toJson b) = true) ↔
        ∀ external ∈ b.externals, external.1 ∈ selected →
          RunBounded b suite.cases (runs external.1)) ∧
      (lit "reference" ∉ selected → overallStatus entries = .incomplete) ∧
      (lit "reference" ∈ selected → overallStatus entries =
        if ∃ case ∈ suite.cases, case.gate ≠ [] ∧ reference case = false then .fail else .pass) := by
  have hunknown : selected.dedup.filter (· ∉ b.systems) = [] := by
    simp only [List.filter_eq_nil_iff, List.mem_dedup, decide_eq_true_iff, not_not]
    exact hselected
  have hothers : ∀ external ∈ b.externals.filter (fun external => external.1 ∈ selected),
      ∃ entry, executeExternal b external.1 external.2 suite.cases (runs external.1) = .ok entry ∧
        entry.system = external.1 ∧
          (bounded (entry.toJson b) = true ↔ RunBounded b suite.cases (runs external.1)) :=
    fun external hmem => bounded_executeExternal suite (List.mem_of_mem_filter hmem)
      (htimed external (List.mem_of_mem_filter hmem) (of_decide_eq_true (List.mem_filter.1 hmem).2))
  obtain ⟨others, hok, hall⟩ := mapM_forall₂ hothers
  have hbounded : (∀ entry ∈ others, bounded (entry.toJson b) = true) ↔
      ∀ external ∈ b.externals, external.1 ∈ selected →
        RunBounded b suite.cases (runs external.1) := by
    rw [forall_mem_iff_of_forall₂ hall fun external _ entry hentry => hentry.2]
    simp only [List.mem_filter, decide_eq_true_iff, and_imp]
  -- no external entry is taken for the reference
  have hnone : others.find? (fun entry => entry.system = lit "reference") = none := by
    refine List.find?_eq_none.2 (forall_mem_of_forall₂ hall fun external hmem entry hentry heq => ?_)
    rw [decide_eq_true_iff, hentry.1] at heq
    exact reference_notMem_externals b
      (heq ▸ List.mem_map_of_mem (List.mem_of_mem_filter hmem))
  by_cases hreference : lit "reference" ∈ selected
  · obtain ⟨run, hrun, hrunBounded, htripped⟩ := runReference_spec suite reference
    refine ⟨.executed "reference" run :: others, ?_, ?_, absurd hreference, fun _ => ?_⟩
    · unfold executeSystems
      simp only [hunknown, ne_eq, not_true_eq_false, if_false, hreference, if_true, hrun, hok]
      rfl
    · rw [List.forall_mem_cons, hbounded]
      exact and_iff_right hrunBounded
    · simp only [overallStatus, List.find?_cons, Entry.system, decide_true, ← htripped]
  · refine ⟨others, ?_, hbounded, fun _ => ?_, fun hmem => absurd hmem hreference⟩
    · unfold executeSystems
      simp only [hunknown, ne_eq, not_true_eq_false, if_false, hreference, hok]
      rfl
    · rw [overallStatus, hnone]

omit [Runtime] in
/-- **When there is a report**: its context and its entries fit, and it is what they make. -/
theorem buildReport_eq_ok_iff {entries : List Entry} {report : ComparisonReport} :
    buildReport b context entries = .ok report ↔
      (context.Bounded ∧ ∀ entry ∈ entries, bounded (entry.toJson b) = true) ∧
        report = { status := overallStatus entries, entries := entries } := by
  obtain ⟨hname, -, -, hentries⟩ := boundedText_words b
  have hstatus : boundedText (overallStatus entries).text = true := by
    cases overallStatus entries <;> rfl
  have hmetadata : bounded (.obj (context.metadata.map fun item => (item.1, .str item.2))) =
      true ↔ ∀ item ∈ context.metadata, boundedText item.1 = true ∧ boundedText item.2 = true := by
    rw [bounded, boundedMembers_iff, List.forall_mem_map]
    exact Iff.rfl
  have hlist : bounded (.list (entries.map (·.toJson b))) = true ↔
      ∀ entry ∈ entries, bounded (entry.toJson b) = true := by
    rw [bounded, boundedItems_iff, List.forall_mem_map]
  -- what the report adds to its context and its entries is known
  have hreport : bounded (ComparisonReport.toJson b context
      { status := overallStatus entries, entries := entries }) = true ↔
      context.Bounded ∧ ∀ entry ∈ entries, bounded (entry.toJson b) = true := by
    rw [ComparisonReport.toJson, bounded, boundedMembers_lit (by decide) (by decide),
      boundedMembers_lit (by decide) (by decide),
      boundedMembers_lit (by decide) (by decide),
      boundedMembers_lit (by decide) (by decide), boundedMembers_cons hentries, hlist, hmetadata]
    constructor
    · intro hall
      exact ⟨⟨hall.2.1, hall.2.2.2.1⟩, hall.2.2.2.2.1⟩
    · intro hall
      exact ⟨hname, hall.1.corpusDigest, hstatus, hall.1.metadata, hall.2, rfl⟩
  rw [buildReport, ← hreport]
  split
  · rename_i hbounded
    rw [Except.ok.injEq, eq_comm (b := report)]
    exact (and_iff_right hbounded).symm
  · rename_i hbounded
    constructor
    · intro heq
      cases heq
    · intro hboth
      exact absurd hboth.1 hbounded

/-- **There is a report unless** the timeout is no integer, the version of some system or the text
    of some exception has a newline, or the context does not fit. Its verdict is that of the
    reference: it is incomplete without one, and passes if the reference gets every case under a
    gate right. -/
theorem verdict_iff (suite : Suite b) (hselected : ∀ name ∈ selected, name ∈ b.systems) :
    ((∃ report, runBenchmark b selected suite.cases runs reference context = .ok report) ↔
      context.Bounded ∧ ∀ external ∈ b.externals, external.1 ∈ selected →
        RunBounded b suite.cases (runs external.1)) ∧
      ∀ report, runBenchmark b selected suite.cases runs reference context = .ok report →
        (report.status = .incomplete ↔ lit "reference" ∉ selected) ∧
        (report.status = .pass ↔ lit "reference" ∈ selected ∧
          ∀ case ∈ suite.cases, case.gate ≠ [] → reference case = true) := by
  -- a timeout that is no integer is raised, and then neither side holds
  by_cases htimed : Timed b selected runs
  case neg =>
    have hnone : ∀ report,
        runBenchmark b selected suite.cases runs reference context ≠ .ok report := by
      intro report hreport
      obtain ⟨entries, hentries, -⟩ := bind_eq_ok_iff.1 hreport
      exact htimed (timed_of_executeSystems hentries)
    refine ⟨iff_of_false (fun h => ?_) fun hall => htimed fun external hmem hsel e hbad => ?_,
      fun report hreport => absurd hreport (hnone report)⟩
    · obtain ⟨report, hreport⟩ := h
      exact hnone report hreport
    · have hbounded := hall.2 external hmem hsel
      rw [hbad] at hbounded
      exact hbounded
  -- otherwise there are entries, and the report is built of them
  obtain ⟨entries, hentries, hbounded, habsent, hpresent⟩ :=
    executeSystems_spec suite runs reference hselected htimed
  have hrun : runBenchmark b selected suite.cases runs reference context =
      buildReport b context entries := by
    rw [runBenchmark, hentries]
    rfl
  simp only [hrun, buildReport_eq_ok_iff, exists_and_left, exists_eq, and_true]
  refine ⟨and_congr_right fun _ => hbounded, fun report hreport => ?_⟩
  rw [hreport.2]
  by_cases hreference : lit "reference" ∈ selected
  · dsimp only
    rw [hpresent hreference]
    simp only [hreference, not_true_eq_false, iff_false, true_and]
    split
    · rename_i hwrong
      obtain ⟨case, hcase, hgate, hfalse⟩ := hwrong
      refine ⟨Report.OverallStatus.noConfusion, iff_of_false Report.OverallStatus.noConfusion ?_⟩
      intro hall
      rw [hall case hcase hgate] at hfalse
      cases hfalse
    · rename_i hright
      refine ⟨Report.OverallStatus.noConfusion, iff_of_true rfl fun case hcase hgate => ?_⟩
      by_contra hfalse
      exact hright ⟨case, hcase, hgate, Bool.eq_false_of_not_eq_true hfalse⟩
  · dsimp only
    rw [habsent hreference]
    refine ⟨iff_of_true rfl hreference, ?_⟩
    exact iff_of_false Report.OverallStatus.noConfusion fun hboth => hreference hboth.1

end Bounded

section Examples

attribute [local instance] cpython Numerics.verbatim

def plainContext : Context where
  corpusDigest := "sha256:corpus"
  metadata := [("harness", "test")]

/-- The comparison where nothing is configured and the reference gets every case right. -/
theorem verdict_unconfigured : ∃ report, runBenchmark .catalogProvenance ["reference", "nessie"]
    (corpus .catalogProvenance).cases (fun _ => .unconfigured) (fun _ => true) plainContext =
      .ok report ∧ report.status = .pass := by
  have hcontext : plainContext.Bounded :=
    ⟨by decide, List.forall_mem_singleton.2 ⟨by decide, by decide⟩⟩
  have hselected : ∀ name ∈ [lit "reference", lit "nessie"],
      name ∈ Benchmark.catalogProvenance.systems := by
    simp [Benchmark.systems, Benchmark.externals]
  obtain ⟨hbuilt, hverdict⟩ := @verdict_iff _ .catalogProvenance _ _ (fun _ => .unconfigured)
    (fun _ => true) plainContext (corpus .catalogProvenance) hselected
  obtain ⟨report, hreport⟩ := hbuilt.2 ⟨hcontext, fun _ _ _ => trivial⟩
  exact ⟨report, hreport, (hverdict report hreport).2.2 ⟨List.mem_cons_self, fun _ _ _ => rfl⟩⟩

end Examples

end AdversarialCognition.Comparison
