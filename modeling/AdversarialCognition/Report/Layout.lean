import AdversarialCognition.Report.Cells

/-!
# The lines of a document

What `render_v2` puts together for a report of known systems with the outcomes of one suite:
`renderLines_spec` says which lines, `flatMap_lines` what they are read as where no row is broken,
and `eachBlock_shown_iff` which tables that holds.

## Written lines and read lines

The renderer makes a list of lines and joins it with newlines. Whoever reads the document splits
it at every line break that `splitlines` knows, so a text with a line break in it becomes several
lines. For a text in a row this breaks the row, and nothing that is said of the document survives
it. For the texts outside the tables it may do no harm: the profile, the provider, and the values
of an attestation may be read as several lines, as long as none of these is mistaken for a row or
a heading.

So the lines as they are written (`Layout.lines`) and as they are read (`Layout.shown`) are kept
apart. In the second the header and the attestations are replaced by what they are read as, and
the rest is as it is written. Everything about the document is then said of `shown`.

## Rows under a heading

What the document says about a system depends on where its row stands. `rowsUnder` collects the
rows of all tables under a heading, wherever they came from, and `rowsUnder_shown` says which
these are: rows in the prose, the tables of a section, and those of the last section. A line of an
attestation that looks like a heading would take the table after it away from its own
(`endsUnder`).

What all this is needed for, the conditions on the texts, is in the module after this one.
-/

namespace AdversarialCognition.Report

open Py Py.Str Json

/-!
## Reports to render

What is asked of a report before it is rendered: its systems are known, and their outcomes are
those of one suite, in its order. What `execute_systems` and the builder make of known systems is
such a report.
-/

/-- What a case is shown with. -/
def CaseOutcome.label (outcome : CaseOutcome) : Str × Str := (outcome.caseId, outcome.category)

/-- What a case of the suite is shown with. -/
def SuiteCase.label (case : SuiteCase) : Str × Str := (case.caseId, case.category)

/-- The systems are known, and those that were executed have the outcomes of one suite, in its
    order. That is what a report of the second benchmark is like, and all that the renderer needs.
    -/
structure Listed (report : BenchmarkReport) (labels : List (Str × Str)) : Prop where
  benchmark : report.benchmark = benchmarkV2
  known : ∀ {name entry}, report.systems.get? name = some entry → name ∈ knownSystems 2
  cases : ∀ {name entry}, report.systems.get? name = some entry → entry.status = .executed →
    ∃ cases, entry.cases = some cases ∧ cases.map CaseOutcome.label = labels

section Listed

variable [Runtime] [Numerics] {context : ReportContext} {selected : List Str}
  {suite : List SuiteCase} {runs : Str → AdapterRun} {runner : SuiteCase → ReferenceRun}
  {report : BenchmarkReport}

theorem outcomeOf_label {case : SuiteCase} {row : Json} {outcome : CaseOutcome}
    (h : outcomeOf case row = .ok outcome) :
    outcome.label = case.label := by
  obtain ⟨_, -, h⟩ := bind_eq_ok_iff.1 h
  obtain ⟨_, -, h⟩ := bind_eq_ok_iff.1 h
  obtain ⟨_, -, h⟩ := bind_eq_ok_iff.1 h
  obtain ⟨_, -, h⟩ := bind_eq_ok_iff.1 h
  obtain ⟨_, -, h⟩ := bind_eq_ok_iff.1 h
  obtain ⟨_, -, h⟩ := bind_eq_ok_iff.1 h
  obtain ⟨_, -, h⟩ := bind_eq_ok_iff.1 h
  obtain ⟨_, -, h⟩ := bind_eq_ok_iff.1 h
  cases h
  rfl

/-- The outcomes of an executed system are those of the suite. -/
theorem cases_selectedReports {systems : List SystemReport}
    (h : selectedReports selected suite runs 2 runner = .ok systems) {system : SystemReport}
    (hsystem : system ∈ systems) (hexecuted : system.status = .executed) :
    system.outcomes.map CaseOutcome.label = suite.map SuiteCase.label := by
  rcases (mem_selectedReports_iff h).1 hsystem with ⟨-, rfl⟩ | ⟨entry, -, -, hrun⟩
  · rw [executeMarciana, List.map_map]
    rfl
  rcases executeExternal_cases hrun with ⟨-, rfl⟩ | ⟨-, message, rfl⟩ | ⟨found, hfound, rfl⟩
  · cases hexecuted
  · cases hexecuted
  · obtain ⟨stdout, -, hparse⟩ := hfound
    obtain ⟨parsed, -, -, hrows⟩ := parseExternalOutcomes_cases hparse
    obtain ⟨value, rows, -, -, hall⟩ := readFromLast_of_parseRows hrows
    exact map_eq_map_of_forall₂ hall fun case outcome hread => by
      obtain ⟨row, -, houtcome⟩ := hread
      exact outcomeOf_label houtcome

/-- **What is built of known systems is listed.** -/
theorem listed_of_reportOf (hversion : context.benchmark = benchmarkV2)
    (hselected : ∀ name ∈ selected, name ∈ knownSystems 2)
    (hreport : reportOf context selected suite runs 2 runner = .ok report) :
    Listed report (suite.map SuiteCase.label) := by
  obtain ⟨systems, h, -, rfl⟩ := (reportOf_eq_ok_iff hselected).1 hreport
  refine ⟨hversion, fun hget => ?_, fun hget hexecuted => ?_⟩
  · obtain ⟨system, hsystem, rfl, -⟩ := get?_assembleReport hversion hget
    rcases (mem_selectedReports_iff h).1 hsystem with ⟨hname, rfl⟩ | ⟨entry, -, hname, hrun⟩
    · exact hselected _ hname
    · rw [executeExternal_system hrun]
      exact hselected _ hname
  · obtain ⟨system, hsystem, -, rfl⟩ := get?_assembleReport hversion hget
    have hstatus : system.status = .executed := by
      by_contra hnot
      rw [if_neg hnot] at hexecuted
      exact hnot hexecuted
    refine ⟨system.outcomes, ?_, cases_selectedReports h hsystem hstatus⟩
    simp [hstatus, Entry.stamp, SystemReport.asDict]

/-!
## Entries and payloads

What stands in an entry stood in the payload of its system, so a condition on the texts of a
report is one on what was printed.
-/

/-- What of a payload is in the entry of its system. -/
structure Entry.ReadFrom (entry : Entry) (found : Parsed) : Prop where
  status : entry.status = .executed
  adapterVersion : entry.adapterVersion = found.version
  harness : entry.harness = found.harness
  track : entry.track = some (trackForInterface found.interface)

omit [Runtime] [Numerics] in
theorem Entry.ReadFrom.mem_systemTracks {entry : Entry} {found : Parsed} {name : Str}
    (h : entry.ReadFrom found) (hget : report.systems.get? name = some entry) :
    (name, trackForInterface found.interface) ∈ systemTracks report := by
  refine mem_systemTracks_iff.2 ⟨entry, hget, h.status, ?_⟩
  rw [h.track]
  rfl

omit [Runtime] [Numerics] in
theorem readFrom_report (system : Str) (found : Parsed) :
    (found.report system).asDict.stamp.ReadFrom found := by
  constructor <;> simp [Parsed.report, SystemReport.asDict, Entry.stamp, Entry.interfaceOr]

theorem get?_of_accepted (hversion : context.benchmark = benchmarkV2)
    (hselected : ∀ name ∈ selected, name ∈ knownSystems 2)
    (hreport : reportOf context selected suite runs 2 runner = .ok report) {system : Str × Str}
    (hsystem : system ∈ externalSystems 2) (hname : system.1 ∈ selected) {found : Parsed}
    (hfound : Accepted suite 2 (runs system.1) found) :
    ∃ entry, report.systems.get? system.1 = some entry ∧ entry.ReadFrom found := by
  obtain ⟨systems, h, -, rfl⟩ := (reportOf_eq_ok_iff hselected).1 hreport
  obtain ⟨report, hrun, hget⟩ := get?_selectedReports h hsystem hname
  rw [executeExternal_of_accepted _ _ hfound] at hrun
  cases hrun
  refine ⟨_, ?_, readFrom_report system.1 found⟩
  rw [get?_assembled, hget, Option.map_some]
  exact congrArg some (if_pos ⟨hversion, rfl⟩)

/-- An executed system is the reference, or its entry is read from its payload. -/
theorem entry_cases (hversion : context.benchmark = benchmarkV2)
    (hselected : ∀ name ∈ selected, name ∈ knownSystems 2)
    (hreport : reportOf context selected suite runs 2 runner = .ok report) {name : Str}
    {entry : Entry} (hget : report.systems.get? name = some entry)
    (hexecuted : entry.status = .executed) :
    (name = lit "marciana" ∧ entry = (executeMarciana suite runner).asDict.stamp) ∨
      ∃ system ∈ externalSystems 2, system.1 = name ∧ system.1 ∈ selected ∧
        ∃ found, Accepted suite 2 (runs system.1) found ∧ entry.ReadFrom found := by
  obtain ⟨systems, h, -, rfl⟩ := (reportOf_eq_ok_iff hselected).1 hreport
  obtain ⟨report, hmem, rfl, rfl⟩ := get?_assembleReport hversion hget
  have hstatus : report.status = .executed := by
    by_contra hnot
    rw [if_neg hnot] at hexecuted
    exact hnot hexecuted
  rw [if_pos hstatus]
  rcases (mem_selectedReports_iff h).1 hmem with ⟨-, rfl⟩ | ⟨system, hsystem, hname, hrun⟩
  · exact .inl ⟨rfl, rfl⟩
  rcases executeExternal_cases hrun with ⟨-, rfl⟩ | ⟨-, message, rfl⟩ | ⟨found, hfound, rfl⟩
  · cases hstatus
  · cases hstatus
  · exact .inr ⟨system, hsystem, rfl, hname, found, hfound, readFrom_report system.1 found⟩

end Listed

/-!
## The members of a track

The systems that were executed in a track, with what is looked up of each. Nothing raises on the
way, as every key that is asked for is there.
-/

section Members

variable [Runtime] {report : BenchmarkReport} {labels : List (Str × Str)} {track : BenchmarkTrack}

/-- The system is executed in the track, and this is what is looked up of it. -/
structure ListedMember (report : BenchmarkReport) (track : BenchmarkTrack) (member : Member) :
    Prop where
  track : (member.name, track) ∈ systemTracks report
  entry : report.systems.get? member.name = some member.entry
  cases : member.entry.cases = some member.cases

omit [Runtime] in
theorem ListedMember.eq_of_name {member other : Member} (h : ListedMember report track member)
    (hother : ListedMember report track other) (hname : member.name = other.name) :
    member = other := by
  obtain ⟨name, entry, cases⟩ := member
  obtain ⟨name', entry', cases'⟩ := other
  obtain rfl : name = name' := hname
  obtain rfl : entry = entry' := Option.some.inj (h.entry.symm.trans hother.entry)
  obtain rfl : cases = cases' := Option.some.inj (h.cases.symm.trans hother.cases)
  rfl

/-- The members of a track, each once. -/
structure AreMembers (report : BenchmarkReport) (track : BenchmarkTrack) (members : List Member) :
    Prop where
  nodup : (members.map (·.name)).Nodup
  mem : ∀ member, member ∈ members ↔ ListedMember report track member

/-- **The members of a track are found**, without an exception and each once. -/
theorem membersOf_spec (h : Listed report labels) (track : BenchmarkTrack) :
    ∃ members, membersOf report track = .ok members ∧ AreMembers report track members := by
  have hmem : ∀ name, name ∈ ((systemTracks report).filter (·.2 = track)).map Prod.fst ↔
      (name, track) ∈ systemTracks report := by
    intro name
    simp
  have hnodup : (((systemTracks report).filter (·.2 = track)).map Prod.fst).Nodup :=
    (nodup_systemTracks report).sublist (List.filter_sublist.map _)
  -- every name of the track has an entry with cases, so no lookup fails
  have hmember : ∀ name ∈ ((systemTracks report).filter (·.2 = track)).map Prod.fst,
      ∃ member, memberOf report name = .ok member ∧
        (ListedMember report track member ∧ member.name = name) := by
    intro name hname
    have htrack := (hmem name).1 hname
    obtain ⟨entry, hentry, hexecuted, -⟩ := mem_systemTracks_iff.1 htrack
    obtain ⟨cases, hcases, -⟩ := h.cases hentry hexecuted
    refine ⟨⟨name, entry, cases⟩, ?_, ⟨htrack, hentry, hcases⟩, rfl⟩
    simp only [memberOf, hentry, hcases]
  obtain ⟨members, hmembers, hall⟩ := mapM_forall₂ hmember
  have hnames : members.map (·.name) =
      ((systemTracks report).filter (·.2 = track)).map Prod.fst := by
    have heq := map_eq_map_of_forall₂ (f := id) (g := Member.name) hall fun name member h => h.2
    rwa [List.map_id] at heq
  have hlisted : ∀ member ∈ members, ListedMember report track member :=
    forall_mem_of_forall₂ hall fun name _ member h => h.1
  refine ⟨members.mergeSort fun a b => !decide (rankingKey b < rankingKey a), ?_, ?_, ?_⟩
  · simp only [membersOf, hmembers, bind, Except.bind]
    rfl
  · rw [((List.mergeSort_perm members _).map _).nodup_iff, hnames]
    exact hnodup
  · intro member
    rw [(List.mergeSort_perm members _).mem_iff]
    refine ⟨hlisted member, fun hmember => ?_⟩
    have hname : member.name ∈ members.map (·.name) := hnames ▸ (hmem _).2 hmember.track
    obtain ⟨found, hfound, heq⟩ := List.mem_map.1 hname
    rwa [← (hlisted found hfound).eq_of_name hmember heq]

omit [Runtime] in
theorem ListedMember.executed {member : Member} (h : ListedMember report track member) :
    member.entry.status = .executed := by
  obtain ⟨entry, hentry, hexecuted, -⟩ := mem_systemTracks_iff.1 h.track
  rw [h.entry] at hentry
  cases hentry
  exact hexecuted

omit [Runtime] in
theorem ListedMember.map_label (h : Listed report labels) {member : Member}
    (hmember : ListedMember report track member) :
    member.cases.map CaseOutcome.label = labels := by
  obtain ⟨cases, hcases, hlabels⟩ := h.cases hmember.entry hmember.executed
  rw [hmember.cases] at hcases
  cases hcases
  exact hlabels

omit [Runtime] in
theorem ListedMember.known (h : Listed report labels) {member : Member}
    (hmember : ListedMember report track member) : member.name ∈ knownSystems 2 :=
  h.known hmember.entry

/-!
## The rows of a case matrix

A row for each case, with a mark for each member. The case is found in every member, since all
have the outcomes of one suite.
-/

/-- The category a case is shown with: of the cases with its id, the last. -/
def labelCategory (labels : List (Str × Str)) (id : Str) : Str :=
  ((labels.reverse.find? (·.1 = id)).map (·.2)).getD []

omit [Runtime] in
theorem categoryOf_eq (cases : List CaseOutcome) (id : Str) :
    categoryOf cases id = labelCategory (cases.map CaseOutcome.label) id := by
  rw [categoryOf, caseOf?, labelCategory, ← List.map_reverse, List.find?_map, Option.map_map]
  rfl

/-- The marks in the cells of a case matrix. -/
def marks : List Str := ["✓", "✗", "·"]

omit [Runtime] in
theorem cell_mem_marks (outcome : CaseOutcome) : cell outcome ∈ marks := by
  unfold cell marks
  split
  · simp
  · split <;> simp

/-- The row of a case: its id, its category, and a mark for each of the members. -/
def IsCaseRow (labels : List (Str × Str)) (width : ℕ) (id row : Str) : Prop :=
  ∃ cells : List Str, cells.length = width ∧ (∀ text ∈ cells, text ∈ marks) ∧
    row = tableRow (code id :: labelCategory labels id :: cells)

theorem caseCell_spec {cases : List CaseOutcome} {id : Str}
    (hid : id ∈ cases.map CaseOutcome.caseId) (name : Str) (entry : Entry) :
    ∃ text, caseCell id ⟨name, entry, cases⟩ = .ok text ∧ text ∈ marks := by
  have hfound : (caseOf? cases id).isSome = true := by
    obtain ⟨outcome, houtcome, rfl⟩ := List.mem_map.1 hid
    exact List.find?_isSome.2 ⟨outcome, List.mem_reverse.2 houtcome, by simp⟩
  obtain ⟨outcome, houtcome⟩ := Option.isSome_iff_exists.1 hfound
  refine ⟨cell outcome, ?_, cell_mem_marks outcome⟩
  simp only [caseCell, houtcome]

/-- The case matrix has a row for every case. -/
theorem caseRows_spec {first : Member} {members : List Member} (hfirst : first ∈ members)
    (hlabels : ∀ member ∈ members, member.cases.map CaseOutcome.label = labels) :
    ∃ rows, caseRows first members = .ok rows ∧
      List.Forall₂ (IsCaseRow labels members.length) (labels.map Prod.fst) rows := by
  have hids : ∀ member ∈ members, member.cases.map CaseOutcome.caseId = labels.map Prod.fst := by
    intro member hmember
    rw [← hlabels member hmember, List.map_map]
    rfl
  have hreference : (members.find? (·.isReference)).getD first ∈ members := by
    cases hfind : members.find? (·.isReference) with
    | none => exact hfirst
    | some reference => exact List.mem_of_find?_eq_some hfind
  unfold caseRows
  rw [hids first hfirst]
  refine mapM_forall₂ fun id hid => ?_
  have hcells : ∀ member ∈ members, ∃ text, caseCell id member = .ok text ∧ text ∈ marks := by
    intro member hmember
    exact caseCell_spec (hids member hmember ▸ hid) member.name member.entry
  obtain ⟨cells, hmap, hall⟩ := mapM_forall₂ hcells
  refine ⟨_, ?_, cells, hall.length_eq.symm, forall_mem_of_forall₂ hall fun _ _ _ h => h, rfl⟩
  rw [caseRow, hmap, categoryOf_eq, hlabels _ hreference]
  rfl

end Members

/-!
## The document

The layout of a document: the members of both tracks and their case rows. Its lines are defined
twice, as they are written and as they are read.
-/

section Document

variable [Runtime] [Percent] {report : BenchmarkReport} {labels : List (Str × Str)}

/-- The members and the case rows of both tracks. -/
structure Layout (report : BenchmarkReport) (labels : List (Str × Str)) where
  members : BenchmarkTrack → List Member
  rows : BenchmarkTrack → List Str
  membersOf : ∀ track, membersOf report track = .ok (members track)
  areMembers : ∀ track, AreMembers report track (members track)
  caseRows : ∀ track, members track ≠ [] →
    List.Forall₂ (IsCaseRow labels (members track).length) (labels.map Prod.fst) (rows track)

namespace Layout

variable (layout : Layout report labels)

/-- The section of a track, if it has members. -/
def track (track : BenchmarkTrack) : List Str :=
  if layout.members track = [] then [] else sectionOf track (layout.members track) (layout.rows track)

/-- The lines of the document, but for the empty one at its end. -/
def lines : List Str :=
  headerLines report ++ layout.track .memoryStore ++ layout.track .agentMemory ++
    gateLines report ++ absentLines report ++ legendLines.dropLast

/-- A section, where the line of the attestation is read as these lines. -/
def shownTrack (track : BenchmarkTrack) : List Str :=
  if layout.members track = [] then []
  else [[], trackHeading track, [], track.note, []] ++
    (harnessLines (layout.members track)).flatMap linesOf ++
    systemsTable (layout.members track) ++ [[], matrixHeading track, []] ++
    matrixTable (layout.members track) (layout.rows track)

/-- The lines the document is read as, if a line break is in no other text than those of the
    header and the attestations. -/
def shown : List Str :=
  (headerLines report).flatMap linesOf ++ layout.shownTrack .memoryStore ++
    layout.shownTrack .agentMemory ++ gateLines report ++ absentLines report ++
    legendLines.dropLast

end Layout

/-- **The lines of a report are those of its layout.** -/
theorem renderLines_spec (h : Listed report labels) :
    ∃ layout : Layout report labels, renderLines report = .ok (layout.lines ++ [[]]) := by
  have htrack : ∀ track, ∃ members rows, membersOf report track = .ok members ∧
      AreMembers report track members ∧
      (members ≠ [] → List.Forall₂ (IsCaseRow labels members.length) (labels.map Prod.fst) rows) ∧
      trackLines report track = .ok (if members = [] then [] else sectionOf track members rows) := by
    intro track
    obtain ⟨members, hmembers, hare⟩ := membersOf_spec h track
    cases members with
    | nil =>
      refine ⟨[], [], hmembers, hare, fun hne => absurd rfl hne, ?_⟩
      rw [trackLines, hmembers]
      rfl
    | cons first rest =>
      have hlabels : ∀ member ∈ first :: rest, member.cases.map CaseOutcome.label = labels :=
        fun member hmember => ((hare.mem member).1 hmember).map_label h
      obtain ⟨rows, hrows, hall⟩ := caseRows_spec List.mem_cons_self hlabels
      refine ⟨first :: rest, rows, hmembers, hare, fun _ => hall, ?_⟩
      rw [trackLines, hmembers, if_neg (List.cons_ne_nil _ _)]
      show sectionLines track (first :: rest) = _
      rw [sectionLines, hrows]
      rfl
  choose members rows hmembers hare hrows hlines using htrack
  refine ⟨⟨members, rows, hmembers, hare, hrows⟩, ?_⟩
  simp only [renderLines, benchmarkTracks, List.mapM_cons, List.mapM_nil, hlines, bind,
    Except.bind, pure, Except.pure]
  simp [Layout.lines, Layout.track, legendLines]

/-!
## Line breaks

Which texts of a row may have a line break. Where none has one, the written lines are read as they
stand, but for the header and the attestations.
-/

/-- The texts in the rows have no line break. -/
structure RowsUnbroken (report : BenchmarkReport) : Prop where
  version : ∀ {name entry}, report.systems.get? name = some entry → entry.status = .executed →
    Unbroken entry.adapterVersion
  cases : ∀ {name entry cases}, report.systems.get? name = some entry →
    entry.status = .executed → entry.cases = some cases → ∀ outcome ∈ cases,
      Unbroken outcome.caseId ∧ Unbroken (categoryOf cases outcome.caseId)
  detail : ∀ {name entry}, report.systems.get? name = some entry → entry.status ≠ .executed →
    Unbroken (detail entry)

omit [Runtime] [Percent] in
@[simp] theorem unbroken_tableRow_iff {cells : List Str} :
    Unbroken (tableRow cells) ↔ ∀ text ∈ cells, Unbroken text := by
  have hopen : Unbroken (lit "| ") := unbroken_ofList (by decide)
  have hclose : Unbroken (lit " |") := unbroken_ofList (by decide)
  rw [tableRow, unbroken_append, unbroken_append, unbroken_join_iff (unbroken_ofList (by decide))]
  simp only [hopen, hclose, true_and, and_true]

omit [Runtime] [Percent] in
@[simp] theorem unbroken_code_iff {text : Str} : Unbroken (code text) ↔ Unbroken text := by
  have htick : Unbroken (lit "`") := unbroken_ofList (by decide)
  simp only [code, unbroken_append, htick, true_and, and_true]

omit [Runtime] [Percent] in
theorem unbroken_known : ∀ name ∈ knownSystems 2, Unbroken name := by decide

omit [Runtime] in
/-- Of the texts in the row of a system, its version alone may have one. -/
theorem unbroken_systemRow_iff (h : Listed report labels) {track : BenchmarkTrack} {member : Member}
    (hmember : ListedMember report track member) :
    Unbroken (systemRow member) ↔ Unbroken member.entry.adapterVersion := by
  have hlit := @unbroken_ofList
  have hslash : Unbroken (lit "/") := hlit (by decide)
  have hopen : Unbroken (lit "% (") := hlit (by decide)
  have hclose : Unbroken (lit ")") := hlit (by decide)
  have hname := unbroken_known _ (hmember.known h)
  simp [systemRow, correctnessText, unbroken_ofNat, hslash, hopen, hclose, hname]

omit [Runtime] [Percent] in
theorem unbroken_caseRow_iff {width : ℕ} {id row : Str} (h : IsCaseRow labels width id row) :
    Unbroken row ↔ Unbroken id ∧ Unbroken (labelCategory labels id) := by
  obtain ⟨cells, -, hcells, rfl⟩ := h
  have hmarks : ∀ text ∈ marks, Unbroken text := by decide
  have hall : ∀ text ∈ cells, Unbroken text := fun text htext => hmarks text (hcells text htext)
  simp only [unbroken_tableRow_iff, List.forall_mem_cons, unbroken_code_iff]
  exact ⟨fun hrow => ⟨hrow.1, hrow.2.1⟩, fun hrow => ⟨hrow.1, hrow.2, hall⟩⟩

omit [Runtime] [Percent] in
theorem unbroken_absentRow_iff (h : Listed report labels) {name : Str} {entry : Entry}
    (hget : report.systems.get? name = some entry) :
    Unbroken (absentRow name entry) ↔ Unbroken (detail entry) := by
  have hname := unbroken_known _ (h.known hget)
  have hstatus : Unbroken entry.status.text := by
    cases entry.status <;> exact unbroken_ofList (by decide)
  simp [absentRow, hname, hstatus]

omit [Runtime] [Percent] in
theorem unbroken_note (track : BenchmarkTrack) : Unbroken track.note := by
  cases track <;> refine unbroken_append.2 ⟨unbroken_append.2 ⟨?_, ?_⟩, ?_⟩
  all_goals exact unbroken_ofList (by decide)

section Track

variable {track : BenchmarkTrack} {members : List Member}

omit [Runtime] in
theorem unbroken_systemsTable (h : Listed report labels) (hrows : RowsUnbroken report)
    (hare : AreMembers report track members) : ∀ row ∈ systemsTable members, Unbroken row := by
  have htable : Unbroken systemsHeader ∧ Unbroken systemsRule := by decide
  refine List.forall_mem_cons.2 ⟨htable.1, List.forall_mem_cons.2 ⟨htable.2, ?_⟩⟩
  refine List.forall_mem_map.2 fun member hmem => ?_
  have hmember := (hare.mem member).1 hmem
  rw [unbroken_systemRow_iff h hmember]
  exact hrows.version hmember.entry hmember.executed

omit [Runtime] [Percent] in
theorem unbroken_matrixTable (h : Listed report labels) (hrows : RowsUnbroken report)
    (hare : AreMembers report track members) (hne : members ≠ []) {rows : List Str}
    (hcases : List.Forall₂ (IsCaseRow labels members.length) (labels.map Prod.fst) rows) :
    ∀ row ∈ matrixTable members rows, Unbroken row := by
  have hlit := @unbroken_ofList
  have hnames : ∀ member ∈ members, Unbroken member.name :=
    fun member hmem => unbroken_known _ (((hare.mem member).1 hmem).known h)
  have hheader : Unbroken (caseHeader members) := by
    rw [caseHeader, unbroken_tableRow_iff, List.forall_mem_cons, List.forall_mem_cons,
      List.forall_mem_map]
    exact ⟨hlit (by decide), hlit (by decide), hnames⟩
  have hrule : Unbroken (caseRule members) := by
    rw [caseRule, unbroken_append, unbroken_append, unbroken_join_iff (hlit (by decide)),
      List.forall_mem_map]
    exact ⟨⟨hlit (by decide), fun _ _ => hlit (by decide)⟩, hlit (by decide)⟩
  refine List.forall_mem_cons.2 ⟨hheader, List.forall_mem_cons.2 ⟨hrule, ?_⟩⟩
  obtain ⟨first, hfirst⟩ := List.exists_mem_of_ne_nil _ hne
  have hmember := (hare.mem first).1 hfirst
  have hlabels := hmember.map_label h
  refine forall_mem_of_forall₂ hcases fun id hid row hrow => ?_
  rw [← hlabels, List.map_map] at hid
  obtain ⟨outcome, houtcome, rfl⟩ := List.mem_map.1 hid
  rw [unbroken_caseRow_iff hrow, ← hlabels, ← categoryOf_eq]
  exact hrows.cases hmember.entry hmember.executed hmember.cases outcome houtcome

end Track

theorem flatMap_track (h : Listed report labels) (hrows : RowsUnbroken report)
    (layout : Layout report labels) (track : BenchmarkTrack) :
    (layout.track track).flatMap linesOf = layout.shownTrack track := by
  by_cases hnil : layout.members track = []
  · simp [Layout.track, Layout.shownTrack, hnil]
  have hheading : Unbroken (trackHeading track) ∧ Unbroken (matrixHeading track) := by
    cases track <;> decide
  have hopen : ∀ line ∈ [[], trackHeading track, [], track.note, []], Unbroken line := by
    simp only [List.forall_mem_cons]
    exact ⟨unbroken_nil, hheading.1, unbroken_nil, unbroken_note track, unbroken_nil,
      List.forall_mem_nil _⟩
  have hmatrixOpen : ∀ line ∈ [[], matrixHeading track, []], Unbroken line := by
    simp only [List.forall_mem_cons]
    exact ⟨unbroken_nil, hheading.2, unbroken_nil, List.forall_mem_nil _⟩
  have hsystems := unbroken_systemsTable h hrows (layout.areMembers track)
  have hmatrix := unbroken_matrixTable h hrows (layout.areMembers track) hnil
    (layout.caseRows track hnil)
  rw [Layout.track, Layout.shownTrack, if_neg hnil, if_neg hnil, sectionOf]
  simp only [List.flatMap_append, flatMap_linesOf hopen, flatMap_linesOf hmatrixOpen,
    flatMap_linesOf hsystems, flatMap_linesOf hmatrix]

omit [Runtime] [Percent] in
theorem mem_absentSystems_iff {name : Str} {entry : Entry} :
    (name, entry) ∈ absentSystems report ↔
      report.systems.get? name = some entry ∧ entry.status ≠ .executed := by
  rw [absentSystems, (List.mergeSort_perm _ _).mem_iff, List.mem_filter, Dict.mem_items_iff,
    decide_eq_true_iff]

omit [Runtime] [Percent] in
theorem unbroken_gateLines : ∀ line ∈ gateLines report, Unbroken line := by
  have hgate : ∀ gate : Gate, Unbroken gate.name := by
    intro gate
    cases gate <;> exact unbroken_ofList (by decide)
  have hprose : ∀ line ∈ [[], lit "## Hard gates (Marciana reference)", []], Unbroken line := by
    decide
  have htable : Unbroken gateHeader ∧ Unbroken gateRule := by decide
  refine List.forall_mem_append.2 ⟨hprose, List.forall_mem_cons.2 ⟨htable.1,
    List.forall_mem_cons.2 ⟨htable.2, List.forall_mem_map.2 fun gate _ => ?_⟩⟩⟩
  simp [gateRow, unbroken_ofNat, hgate]

omit [Runtime] [Percent] in
theorem unbroken_absentLines (h : Listed report labels) (hrows : RowsUnbroken report) :
    ∀ line ∈ absentLines report, Unbroken line := by
  have hmem : ∀ item ∈ absentSystems report, Unbroken (absentRow item.1 item.2) := by
    intro item hitem
    obtain ⟨hget, hstatus⟩ := mem_absentSystems_iff.1 hitem
    exact (unbroken_absentRow_iff h hget).2 (hrows.detail hget hstatus)
  have hprose : ∀ line ∈ [[], absentHeading, []], Unbroken line := by decide
  have htable : Unbroken absentHeader ∧ Unbroken absentRule := by decide
  unfold absentLines
  split
  · exact List.forall_mem_nil _
  · exact List.forall_mem_append.2 ⟨hprose, List.forall_mem_cons.2 ⟨htable.1,
      List.forall_mem_cons.2 ⟨htable.2, List.forall_mem_map.2 hmem⟩⟩⟩

/-- **Where no row is broken, the document is read as it is shown.** -/
theorem flatMap_lines (h : Listed report labels) (hrows : RowsUnbroken report)
    (layout : Layout report labels) : layout.lines.flatMap linesOf = layout.shown := by
  have hlegend : ∀ line ∈ legendLines.dropLast, Unbroken line := by decide
  rw [Layout.lines, Layout.shown]
  simp only [List.flatMap_append, flatMap_track h hrows, flatMap_linesOf unbroken_gateLines,
    flatMap_linesOf (unbroken_absentLines h hrows), flatMap_linesOf hlegend]

/-!
## Quiet texts

A line that begins with anything but a bar, blanks aside, is in no table.
-/

/-- The text begins with something else than a bar, blanks aside. -/
def opensProse (text : Str) : Bool := (lstrip text).head?.any (· != bar)

omit [Runtime] [Percent] in
theorem opensProse_append {text : Str} (h : opensProse text = true) (more : Str) :
    opensProse (text ++ more) = true := by
  have hne : lstrip text ≠ [] := by
    intro hnil
    rw [opensProse, hnil] at h
    cases h
  have hstrip : lstrip (text ++ more) = lstrip text ++ more := by
    have hempty : (text.dropWhile isspace).isEmpty = false := by
      simpa [lstrip] using hne
    simp [lstrip, List.dropWhile_append, hempty]
  rwa [opensProse, hstrip, List.head?_append_of_ne_nil _ hne]

omit [Runtime] [Percent] in
theorem isProse_of_opens {text : Str} (h : opensProse text = true) : isProse text = true := by
  unfold opensProse at h
  unfold isProse isTableLine
  cases hhead : (lstrip text).head? with
  | none => rfl
  | some c =>
    rw [hhead] at h
    simpa using h

omit [Runtime] [Percent] in
theorem isProse_tableRow (cells : List Str) : isProse (tableRow cells) = false := rfl

omit [Percent] in
theorem flatMap_harnessLines_none {members : List Member} (h : sharedHarness members = none) :
    (harnessLines members).flatMap linesOf = [] := by
  rw [harnessLines, h]
  rfl

omit [Percent] in
theorem flatMap_harnessLines_some {members : List Member} {harness : HarnessBlock}
    (h : sharedHarness members = some harness) :
    (harnessLines members).flatMap linesOf = linesOf (harnessLine harness) ++ [[]] := by
  rw [harnessLines, h, List.flatMap_cons, List.flatMap_singleton]
  rfl

/-!
## The prose

The header and the lines of the attestations, as they are read. If their texts have no line break
they are one line each, and prose.
-/

/-- The lines of the header, as they are read. -/
def headerProse (report : BenchmarkReport) : List Str := (headerLines report).flatMap linesOf

/-- The lines of the attestation of a track, as they are read. -/
def harnessProse (report : BenchmarkReport) (track : BenchmarkTrack) : List Str :=
  match membersOf report track with
  | .ok members => (harnessLines members).flatMap linesOf
  | .error _ => []

omit [Percent] in
theorem Layout.harnessProse_eq (layout : Layout report labels) (track : BenchmarkTrack) :
    harnessProse report track = (harnessLines (layout.members track)).flatMap linesOf := by
  rw [harnessProse, layout.membersOf track]

/-- The texts outside the tables have no line break. -/
structure ProseUnbroken (report : BenchmarkReport) : Prop where
  corpusDigest : Unbroken report.corpusDigest
  profile : Unbroken ((report.metadata.lookup (lit "profile")).getD [])
  provider : Unbroken ((report.metadata.lookup (lit "provider")).getD [])
  harness : ∀ {name entry harness}, report.systems.get? name = some entry →
    entry.harness = some harness → ∀ key ∈ harnessKeys,
      Unbroken (Json.lookup harness.items key .null).toStr

omit [Percent] in
/-- The line of an attestation whose values have no line break. -/
theorem unbroken_harnessLine {harness : HarnessBlock}
    (h : ∀ key ∈ harnessKeys, Unbroken (Json.lookup harness.items key .null).toStr) :
    Unbroken (harnessLine harness) := by
  simp only [harnessKeys, List.forall_mem_cons] at h
  obtain ⟨hmodel, hseed, htemperature, hcontext, hturns, hdigest, hcontract, -⟩ := h
  simp only [harnessLine, unbroken_append, hmodel, hseed, htemperature, hcontext, hturns, hdigest,
    hcontract, and_true]
  refine ⟨⟨⟨⟨⟨⟨⟨?_, ?_⟩, ?_⟩, ?_⟩, ?_⟩, ?_⟩, ?_⟩, ?_⟩
  all_goals exact unbroken_ofList (by decide)

omit [Percent] in
theorem isProse_headerProse (h : Listed report labels) (hprose : ProseUnbroken report) :
    ∀ line ∈ headerProse report, isProse line = true := by
  have hlit := @unbroken_ofList
  have hstatus : Unbroken report.status.text := by
    cases report.status <;> exact hlit (by decide)
  have hdigest : Unbroken (code report.corpusDigest) := unbroken_code_iff.2 hprose.corpusDigest
  have hlines : ∀ line ∈ headerLines report, Unbroken line ∧ isProse line = true := by
    have hblank : Unbroken [] ∧ isProse [] = true := ⟨unbroken_nil, rfl⟩
    simp only [headerLines, List.forall_mem_cons, h.benchmark]
    refine ⟨⟨hlit (by decide), rfl⟩, hblank, ⟨?_, rfl⟩, ⟨?_, ?_⟩, ⟨?_, ?_⟩, ⟨?_, ?_⟩, hblank, ⟨?_, ?_⟩,
      List.forall_mem_nil _⟩
    · exact unbroken_append.2 ⟨hlit (by decide), hlit (by decide)⟩
    · exact unbroken_append.2 ⟨hlit (by decide), hdigest⟩
    · exact isProse_of_opens (opensProse_append rfl _)
    · exact unbroken_append.2 ⟨hlit (by decide), hstatus⟩
    · exact isProse_of_opens (opensProse_append rfl _)
    · simp only [unbroken_append, hprose.profile, hprose.provider, and_true]
      exact ⟨hlit (by decide), hlit (by decide)⟩
    · simp only [List.append_assoc]
      exact isProse_of_opens (opensProse_append rfl _)
    · simp only [unbroken_append, List.append_assoc]
      refine ⟨?_, ?_, ?_, ?_, ?_, ?_, ?_, ?_⟩
      all_goals exact hlit (by decide)
    · simp only [List.append_assoc]
      exact isProse_of_opens (opensProse_append rfl _)
  rw [headerProse, flatMap_linesOf fun line hline => (hlines line hline).1]
  exact fun line hline => (hlines line hline).2

omit [Percent] in
theorem harnessProse_of_unbroken (hprose : ProseUnbroken report) {members : List Member}
    (hmembers : ∀ member ∈ members, report.systems.get? member.name = some member.entry) :
    ∀ line ∈ (harnessLines members).flatMap linesOf,
      line = [] ∨ ∃ harness, line = harnessLine harness := by
  cases hshared : sharedHarness members with
  | none =>
    rw [flatMap_harnessLines_none hshared]
    exact List.forall_mem_nil _
  | some harness =>
    obtain ⟨member, hmem, hblock⟩ := List.exists_of_findSome?_eq_some hshared
    have hunbroken := unbroken_harnessLine fun key hkey =>
      hprose.harness (hmembers member hmem) hblock key hkey
    rw [flatMap_harnessLines_some hshared, linesOf_of_unbroken hunbroken]
    intro line hline
    rcases List.mem_pair.1 hline with rfl | rfl
    · exact .inr ⟨harness, rfl⟩
    · exact .inl rfl

/-!
## The tables of the document

A table ends at a line that is prose. So the tables of a document are those that were laid out,
and whatever the prose is mistaken for.
-/

omit [Runtime] [Percent] in
/-- The lines of a section outside its tables are in no table. -/
theorem isProse_headings (track : BenchmarkTrack) : isProse (trackHeading track) = true ∧
    isProse track.note = true ∧ isProse (matrixHeading track) = true := by
  refine ⟨isProse_of_opens (opensProse_append rfl _), ?_, isProse_of_opens (opensProse_append rfl _)⟩
  cases track <;> exact isProse_of_opens (opensProse_append (opensProse_append rfl _) _)

section Blocks

variable {Q : List Str → Prop}

omit [Runtime] [Percent] in
theorem eachBlock_append_blank {lines rest : List Str} (hnil : Q []) (h : rest.head? = some []) :
    EachBlock isProse Q (lines ++ rest) ↔ EachBlock isProse Q lines ∧ EachBlock isProse Q rest := by
  obtain ⟨more, rfl⟩ := List.head?_eq_some_iff.1 h
  have hblank : isProse [] = true := rfl
  rw [eachBlock_append hblank, eachBlock_cons hnil hblank]

omit [Percent] in
theorem eachBlock_harness_append (hnil : Q []) (members : List Member) (rest : List Str) :
    EachBlock isProse Q ((harnessLines members).flatMap linesOf ++ rest) ↔
      EachBlock isProse Q ((harnessLines members).flatMap linesOf) ∧ EachBlock isProse Q rest := by
  cases hshared : sharedHarness members with
  | none =>
    rw [flatMap_harnessLines_none hshared]
    exact (and_iff_right (eachBlock_nil hnil)).symm
  | some harness =>
    have hblank : isProse [] = true := rfl
    rw [flatMap_harnessLines_some hshared, List.append_assoc, List.singleton_append,
      eachBlock_append hblank, eachBlock_append hblank]
    exact and_congr_left' (and_iff_left (eachBlock_nil hnil)).symm

/-- The tables of a section are its two, and what its attestation is mistaken for. -/
theorem eachBlock_track_iff (hnil : Q []) (layout : Layout report labels) (track : BenchmarkTrack) :
    EachBlock isProse Q (layout.shownTrack track) ↔
      EachBlock isProse Q ((harnessLines (layout.members track)).flatMap linesOf) ∧
      (layout.members track ≠ [] → Q (systemsTable (layout.members track)) ∧
        Q (matrixTable (layout.members track) (layout.rows track))) := by
  by_cases hmembers : layout.members track = []
  · rw [Layout.shownTrack, if_pos hmembers, hmembers]
    have hempty : EachBlock isProse Q [] := eachBlock_nil hnil
    exact iff_of_true hempty ⟨hempty, fun hne => absurd rfl hne⟩
  have hheading := isProse_headings track
  -- the section is prose, a table, prose and a table again
  have hopen : ∀ line ∈ [[], trackHeading track, [], track.note, []], isProse line = true := by
    simp only [List.forall_mem_cons]
    exact ⟨rfl, hheading.1, rfl, hheading.2.1, rfl, List.forall_mem_nil _⟩
  have hmatrixOpen : ∀ line ∈ [matrixHeading track, []], isProse line = true :=
    List.forall_mem_cons.2 ⟨hheading.2.2, List.forall_mem_singleton.2 rfl⟩
  have hsystems : ∀ line ∈ systemsTable (layout.members track), isProse line = false := by
    refine List.forall_mem_cons.2 ⟨rfl, List.forall_mem_cons.2 ⟨rfl, ?_⟩⟩
    exact List.forall_mem_map.2 fun member _ => isProse_tableRow _
  have hmatrix : ∀ line ∈ matrixTable (layout.members track) (layout.rows track),
      isProse line = false := by
    refine List.forall_mem_cons.2 ⟨rfl, List.forall_mem_cons.2 ⟨rfl, ?_⟩⟩
    refine forall_mem_of_forall₂ (layout.caseRows track hmembers) fun id _ row hrow => ?_
    obtain ⟨cells, -, -, rfl⟩ := hrow
    exact isProse_tableRow _
  have hblank : isProse [] = true := rfl
  have hsection : layout.shownTrack track = [[], trackHeading track, [], track.note, []] ++
      ((harnessLines (layout.members track)).flatMap linesOf ++
        (systemsTable (layout.members track) ++ [] :: ([matrixHeading track, []] ++
          matrixTable (layout.members track) (layout.rows track)))) := by
    simp [Layout.shownTrack, hmembers]
  rw [hsection, eachBlock_of_forall hnil hopen, eachBlock_harness_append hnil,
    eachBlock_append hblank, eachBlock_singleton hsystems, eachBlock_of_forall hnil hmatrixOpen,
    eachBlock_singleton hmatrix]
  simp [hmembers]

/-- What holds of every table in the prose, where there should be none. -/
def EachProseBlock (Q : List Str → Prop) (report : BenchmarkReport) : Prop :=
  EachBlock isProse Q (headerProse report) ∧
    ∀ track, EachBlock isProse Q (harnessProse report track)

omit [Runtime] [Percent] in
theorem eachBlock_gateLines_iff (hnil : Q []) :
    EachBlock isProse Q (gateLines report) ↔ Q (gateTable report) := by
  have hprose : ∀ line ∈ [[], lit "## Hard gates (Marciana reference)", []],
      isProse line = true := by decide
  rw [gateLines, eachBlock_of_forall hnil hprose, eachBlock_singleton]
  refine List.forall_mem_cons.2 ⟨rfl, List.forall_mem_cons.2 ⟨rfl, ?_⟩⟩
  exact List.forall_mem_map.2 fun gate _ => isProse_tableRow _

omit [Runtime] [Percent] in
theorem eachBlock_absentLines_iff (hnil : Q []) :
    EachBlock isProse Q (absentLines report) ↔
      ((absentSystems report).isEmpty = false → Q (absentTable report)) := by
  have hprose : ∀ line ∈ [[], absentHeading, []], isProse line = true := by decide
  unfold absentLines
  split
  · rename_i hempty
    exact iff_of_true (eachBlock_nil hnil) fun hne => absurd hempty (by rw [hne]; decide)
  · rename_i hne
    rw [eachBlock_of_forall hnil hprose, eachBlock_singleton]
    · simp [hne]
    · refine List.forall_mem_cons.2 ⟨rfl, List.forall_mem_cons.2 ⟨rfl, ?_⟩⟩
      exact List.forall_mem_map.2 fun item _ => isProse_tableRow _

/-- **The tables of the document are those of its tracks, the one of the gates and the one of
    the systems that were not executed, and what the prose is mistaken for.** -/
theorem eachBlock_shown_iff (hnil : Q []) (layout : Layout report labels) :
    EachBlock isProse Q layout.shown ↔ EachProseBlock Q report ∧
      (∀ track, layout.members track ≠ [] → Q (systemsTable (layout.members track)) ∧
        Q (matrixTable (layout.members track) (layout.rows track))) ∧
      Q (gateTable report) ∧ ((absentSystems report).isEmpty = false → Q (absentTable report)) := by
  have hlegend : EachBlock isProse Q legendLines.dropLast := by
    have hprose : ∀ line ∈ legendLines.dropLast, isProse line = true := by decide
    rw [← List.append_nil legendLines.dropLast, eachBlock_of_forall hnil hprose]
    exact eachBlock_nil hnil
  -- each part begins with an empty line, so no table goes on from one part into the next
  have hblankAbsent : (absentLines report ++ legendLines.dropLast).head? = some [] := by
    unfold absentLines
    split <;> rfl
  have hblankGates : (gateLines report ++ (absentLines report ++ legendLines.dropLast)).head? =
      some [] := rfl
  have hblankAgent : (layout.shownTrack .agentMemory ++ (gateLines report ++
      (absentLines report ++ legendLines.dropLast))).head? = some [] := by
    unfold Layout.shownTrack
    split <;> rfl
  have hblankTracks : (layout.shownTrack .memoryStore ++ (layout.shownTrack .agentMemory ++
      (gateLines report ++ (absentLines report ++ legendLines.dropLast)))).head? = some [] := by
    rw [Layout.shownTrack]
    split
    · exact hblankAgent
    · rfl
  have hlines : layout.shown = (headerLines report).flatMap linesOf ++
      (layout.shownTrack .memoryStore ++ (layout.shownTrack .agentMemory ++ (gateLines report ++
        (absentLines report ++ legendLines.dropLast)))) := by
    simp [Layout.shown]
  rw [hlines, eachBlock_append_blank hnil hblankTracks, eachBlock_append_blank hnil hblankAgent,
    eachBlock_append_blank hnil hblankGates, eachBlock_append_blank hnil hblankAbsent,
    eachBlock_append_blank hnil rfl, eachBlock_track_iff hnil, eachBlock_track_iff hnil,
    eachBlock_gateLines_iff hnil, eachBlock_absentLines_iff hnil, ← layout.harnessProse_eq, ← layout.harnessProse_eq]
  constructor
  · rintro ⟨hheader, ⟨hstore, hstores⟩, ⟨hagent, hagents⟩, hgates, habsent, -⟩
    refine ⟨⟨hheader, fun track => ?_⟩, fun track => ?_, hgates, habsent⟩
    · cases track
      · exact hstore
      · exact hagent
    · cases track
      · exact hstores
      · exact hagents
  · rintro ⟨⟨hheader, hprose⟩, htracks, hgates, habsent⟩
    exact ⟨hheader, ⟨hprose _, htracks _⟩, ⟨hprose _, htracks _⟩, hgates, habsent, hlegend⟩

end Blocks

/-!
## Rows under a heading

A heading holds until the next one. The rows under it are collected over the parts of the
document, each part beginning where the one before has ended.
-/

/-- A heading, as the renderer writes them: up to six hashes and a space. -/
def isHeading (line : Str) : Bool :=
  let hashes := line.takeWhile (· == CodePoint.ofChar '#')
  0 < hashes.length && hashes.length ≤ 6 && (line.drop hashes.length).head? == some (CodePoint.ofChar ' ')

/-- The rows of the tables that stand under the heading, where it is said whether the first line
    does. -/
def rowsUnder (heading : Str) : Bool → List Str → List Str
  | _, [] => []
  | inside, line :: lines =>
      if isHeading line then rowsUnder heading (line = heading) lines
      else if isProse line || !inside then rowsUnder heading inside lines
      else line :: rowsUnder heading inside lines

/-- What follows the lines stands under the heading. -/
def endsUnder (heading : Str) : Bool → List Str → Bool
  | inside, [] => inside
  | inside, line :: lines => endsUnder heading (if isHeading line then line = heading else inside) lines

section Under

variable {heading : Str} {inside : Bool} {lines more rows : List Str}

omit [Runtime] [Percent] in
/-- The rows of two parts of a document, the second beginning where the first has ended. -/
theorem rowsUnder_append : rowsUnder heading inside (lines ++ more) =
    rowsUnder heading inside lines ++ rowsUnder heading (endsUnder heading inside lines) more := by
  induction lines generalizing inside with
  | nil => rfl
  | cons line lines ih =>
    rw [List.cons_append, rowsUnder, rowsUnder, endsUnder]
    split
    · exact ih
    · split
      · exact ih
      · rw [ih, List.cons_append]

omit [Runtime] [Percent] in
theorem endsUnder_append : endsUnder heading inside (lines ++ more) =
    endsUnder heading (endsUnder heading inside lines) more := by
  induction lines generalizing inside with
  | nil => rfl
  | cons line lines ih =>
    rw [List.cons_append, endsUnder, endsUnder]
    exact ih

omit [Runtime] [Percent] in
theorem mem_of_rowsUnder : ∀ row ∈ rowsUnder heading inside lines, row ∈ lines := by
  induction lines generalizing inside with
  | nil => exact List.forall_mem_nil _
  | cons line lines ih =>
    intro row hrow
    rw [rowsUnder] at hrow
    split at hrow
    · exact List.mem_cons_of_mem _ (ih row hrow)
    · split at hrow
      · exact List.mem_cons_of_mem _ (ih row hrow)
      · rcases List.mem_cons.1 hrow with rfl | hrow
        · exact List.mem_cons_self
        · exact List.mem_cons_of_mem _ (ih row hrow)

omit [Runtime] [Percent] in
theorem isHeading_of_row {line : Str} (h : isProse line = false) : isHeading line = false := by
  cases line with
  | nil => rfl
  | cons c line =>
    have hne : c ≠ CodePoint.ofChar '#' := by
      rintro rfl
      have hstrip : lstrip (CodePoint.ofChar '#' :: line) = CodePoint.ofChar '#' :: line :=
        List.dropWhile_cons_of_neg (by decide)
      rw [isProse, isTableLine, hstrip, List.head?_cons] at h
      exact absurd h (by decide)
    have hnone : (c :: line).takeWhile (· == CodePoint.ofChar '#') = [] :=
      List.takeWhile_cons_of_neg (by simpa using hne)
    rw [isHeading, hnone]
    rfl

omit [Runtime] [Percent] in
theorem rowsUnder_of_prose (h : ∀ line ∈ lines, isProse line = true) :
    rowsUnder heading inside lines = [] := by
  induction lines generalizing inside with
  | nil => rfl
  | cons line lines ih =>
    obtain ⟨hline, hlines⟩ := List.forall_mem_cons.1 h
    rw [rowsUnder, hline, Bool.true_or, if_pos rfl]
    split
    · exact ih hlines
    · exact ih hlines

omit [Runtime] [Percent] in
theorem endsUnder_of_plain (h : ∀ line ∈ lines, isHeading line = false) :
    endsUnder heading inside lines = inside := by
  induction lines with
  | nil => rfl
  | cons line lines ih =>
    obtain ⟨hline, hlines⟩ := List.forall_mem_cons.1 h
    rw [endsUnder, hline]
    exact ih hlines

omit [Runtime] [Percent] in
theorem rowsUnder_of_rows (h : ∀ row ∈ rows, isProse row = false) :
    rowsUnder heading inside rows = if inside = true then rows else [] := by
  induction rows with
  | nil => simp [rowsUnder]
  | cons row rows ih =>
    obtain ⟨hrow, hrows⟩ := List.forall_mem_cons.1 h
    rw [rowsUnder, isHeading_of_row hrow, hrow, ih hrows]
    cases inside <;> rfl

omit [Runtime] [Percent] in
theorem endsUnder_of_rows (h : ∀ row ∈ rows, isProse row = false) :
    endsUnder heading inside rows = inside :=
  endsUnder_of_plain fun row hrow => isHeading_of_row (h row hrow)

omit [Runtime] [Percent] in
/-- The lines that the renderer means for headings are headings, and its notes are not. -/
theorem isHeading_headings (track : BenchmarkTrack) : isHeading (trackHeading track) = true ∧
    isHeading (matrixHeading track) = true ∧ isHeading track.note = false := by
  have hnote : ∀ {c : CodePoint} {text : Str}, c ≠ CodePoint.ofChar '#' →
      isHeading (c :: text) = false := by
    intro c text hne
    have hnone : (c :: text).takeWhile (· == CodePoint.ofChar '#') = [] :=
      List.takeWhile_cons_of_neg (by simpa using hne)
    rw [isHeading, hnone]
    rfl
  cases track with
  | memoryStore => exact ⟨by decide, by decide, hnote (by decide)⟩
  | agentMemory => exact ⟨by decide, by decide, hnote (by decide)⟩

end Under

/-!
## Which rows stand under which heading

The same for the parts of a layout. The attestation of a track stands between its heading and its
first table, and so is the one text that may come between the two.
-/

namespace Layout

variable (layout : Layout report labels)

omit [Runtime] in
theorem row_systemsTable (members : List Member) :
    ∀ row ∈ systemsTable members, isProse row = false :=
  List.forall_mem_cons.2 ⟨rfl, List.forall_mem_cons.2 ⟨rfl,
    List.forall_mem_map.2 fun _ _ => isProse_tableRow _⟩⟩

omit [Percent] in
theorem row_matrixTable {track : BenchmarkTrack} (hne : layout.members track ≠ []) :
    ∀ row ∈ matrixTable (layout.members track) (layout.rows track), isProse row = false := by
  refine List.forall_mem_cons.2 ⟨rfl, List.forall_mem_cons.2 ⟨rfl, ?_⟩⟩
  refine forall_mem_of_forall₂ (layout.caseRows track hne) fun id _ row hrow => ?_
  obtain ⟨cells, -, -, rfl⟩ := hrow
  exact isProse_tableRow _

/-- The rows of a section that stand under the heading: those in the prose, the systems table if
    no heading in the prose takes it away, and the case matrix. -/
def sectionRows (heading : Str) (track : BenchmarkTrack) : List Str :=
  rowsUnder heading (trackHeading track = heading) (harnessProse report track) ++
    (if layout.members track ≠ [] ∧
        endsUnder heading (trackHeading track = heading) (harnessProse report track) = true then
      systemsTable (layout.members track) else []) ++
    if layout.members track ≠ [] ∧ matrixHeading track = heading then
      matrixTable (layout.members track) (layout.rows track) else []

theorem rowsUnder_shownTrack (heading : Str) (inside : Bool) (track : BenchmarkTrack) :
    rowsUnder heading inside (layout.shownTrack track) = layout.sectionRows heading track := by
  obtain ⟨htrack, hmatrix, hnote⟩ := isHeading_headings track
  have hblank : isHeading [] = false := rfl
  rw [shownTrack, sectionRows, ← layout.harnessProse_eq]
  -- a track without members has no section at all
  by_cases hnil : layout.members track = []
  · have hprose : harnessProse report track = [] := by
      rw [layout.harnessProse_eq, hnil]
      rfl
    simp [hnil, hprose, rowsUnder]
  have hprose := isProse_headings track
  have hopen : ∀ line ∈ [[], trackHeading track, [], track.note, []], isProse line = true := by
    simp only [List.forall_mem_cons]
    exact ⟨rfl, hprose.1, rfl, hprose.2.1, rfl, List.forall_mem_nil _⟩
  have hclose : ∀ line ∈ [[], matrixHeading track, []], isProse line = true := by
    simp only [List.forall_mem_cons]
    exact ⟨rfl, hprose.2.2, rfl, List.forall_mem_nil _⟩
  have hopens : endsUnder heading inside [[], trackHeading track, [], track.note, []] =
      decide (trackHeading track = heading) := by
    simp [endsUnder, hblank, htrack, hnote]
  have hcloses : ∀ inside, endsUnder heading inside [[], matrixHeading track, []] =
      decide (matrixHeading track = heading) := by
    intro inside
    simp [endsUnder, hblank, hmatrix]
  rw [if_neg hnil]
  simp only [rowsUnder_append, endsUnder_append, rowsUnder_of_prose hopen, rowsUnder_of_prose hclose,
    rowsUnder_of_rows (row_systemsTable _), endsUnder_of_rows (row_systemsTable _),
    rowsUnder_of_rows (layout.row_matrixTable hnil), hopens, hcloses, List.nil_append, List.append_nil,
    decide_eq_true_eq, ne_eq, hnil, not_false_eq_true, true_and]

/-- **The rows of the document under a heading** of a track or a matrix, or under the last. -/
theorem rowsUnder_shown {heading : Str} (hgate : heading ≠ lit "## Hard gates (Marciana reference)") :
    rowsUnder heading false layout.shown = rowsUnder heading false (headerProse report) ++
      layout.sectionRows heading .memoryStore ++ layout.sectionRows heading .agentMemory ++
      if heading = absentHeading ∧ (absentSystems report).isEmpty = false then absentTable report
      else [] := by
  have hlegend : ∀ inside, rowsUnder heading inside legendLines.dropLast = [] := fun inside =>
    rowsUnder_of_prose (by decide)
  have hblank : isHeading [] = false := rfl
  -- the heading of the gates closes whatever was open, and is not the one asked for
  have hgates : ∀ inside, rowsUnder heading inside (gateLines report) = [] := by
    intro inside
    have hopen : ∀ line ∈ [[], lit "## Hard gates (Marciana reference)", []],
        isProse line = true := by decide
    have hheading : isHeading (lit "## Hard gates (Marciana reference)") = true := by decide
    have hopens : endsUnder heading inside [[], lit "## Hard gates (Marciana reference)", []] =
        false := by
      simp [endsUnder, hblank, hheading, hgate.symm]
    have hrows : ∀ row ∈ gateTable report, isProse row = false :=
      List.forall_mem_cons.2 ⟨rfl, List.forall_mem_cons.2 ⟨rfl,
        List.forall_mem_map.2 fun _ _ => isProse_tableRow _⟩⟩
    rw [gateLines, rowsUnder_append, rowsUnder_of_prose hopen, hopens, rowsUnder_of_rows hrows]
    rfl
  have habsent : ∀ inside, rowsUnder heading inside (absentLines report) =
      if heading = absentHeading ∧ (absentSystems report).isEmpty = false then absentTable report
      else [] := by
    intro inside
    rw [absentLines]
    cases hempty : (absentSystems report).isEmpty with
    | true => simp [rowsUnder]
    | false =>
      have hopen : ∀ line ∈ [[], absentHeading, []], isProse line = true := by decide
      have hheading : isHeading absentHeading = true := by decide
      have hopens : endsUnder heading inside [[], absentHeading, []] =
          decide (heading = absentHeading) := by
        simp [endsUnder, hblank, hheading, eq_comm]
      have hrows : ∀ row ∈ absentTable report, isProse row = false :=
        List.forall_mem_cons.2 ⟨rfl, List.forall_mem_cons.2 ⟨rfl,
          List.forall_mem_map.2 fun _ _ => isProse_tableRow _⟩⟩
      rw [if_neg Bool.false_ne_true, rowsUnder_append, rowsUnder_of_prose hopen, hopens,
        rowsUnder_of_rows hrows]
      simp
  simp only [shown, rowsUnder_append, rowsUnder_shownTrack, hgates, habsent, hlegend,
    List.append_nil]
  rfl

end Layout

end Document

end AdversarialCognition.Report
