import AdversarialCognition.Lib.Lines
import AdversarialCognition.Report.Tracks
import Mathlib.Data.Prod.Lex
import Mathlib.Algebra.Order.Field.Rat

/-!
# Rendering a report

`render_v2` and `assert_no_cross_track_table` of `render_results.py`. The document is a list of
lines until it is joined; then the check splits it again and reads the tables in it back.

## What the two parts have in common

The renderer groups the systems by track and writes a table for each group. The check is written
against the text: it takes any block of lines that begin with a bar for a table, splits a line at
its bars, strips backticks and blanks, and looks for names of systems. Nothing but the names is
shared between them, so a cell with the name of a system in it counts as that system, whoever put
it there. The three modules after this one say when that comes up.

## What is modelled as it is

Every line of the document is here with its words, as the check reads them all. A row is looked up
in the dictionary of a system, and a case that is not there raises a `KeyError`. Sorting is by the
source's keys, and ties keep the order.

The percentage of a row is a float in the source. `Percent` stands for how it is rounded, and
nothing is assumed of it: a percentage is a number in a cell.
-/

namespace AdversarialCognition.Report

open Py Py.Str Json

/-- `f"{correct / total:.0%}"`, before the sign. The arithmetic of floats is not modelled. -/
class Percent where
  percent : ℕ → ℕ → ℕ

/-!
## The check

`assert_no_cross_track_table`, which knows nothing of how the document came about.
-/

/-- The character that begins and separates the cells of a table. -/
def bar : CodePoint := CodePoint.ofChar '|'

/-- The character around a code span. -/
def backtick : CodePoint := CodePoint.ofChar '\x60'

/-- `text.strip(c)` -/
def stripChar (c : CodePoint) (text : Str) : Str := stripOf (· == c) text

/-- `line.lstrip().startswith("|")` -/
def isTableLine (line : Str) : Bool := (lstrip line).head? == some bar

/-- The cells of a row, as the check reads them. -/
def rowTokens (row : Str) : List Str :=
  (split bar (stripChar bar row.strip)).map fun raw => stripChar backtick raw.strip

/-- `seen` -/
def seenTracks (tracks : List (Str × BenchmarkTrack)) (rows : List Str) : List BenchmarkTrack :=
  ((rows.flatMap rowTokens).filterMap fun token => tracks.lookup token).dedup

/-- `check` -/
def checkTable (tracks : List (Str × BenchmarkTrack)) (rows : List Str) : Except Raised Unit :=
  if 1 < (seenTracks tracks rows).length then
    .error ⟨.valueError, lit "rendered table mixes tracks: " ++
      join ", " (sorted ((seenTracks tracks rows).map (·.text)))⟩
  else .ok ()

/-- The loop of `assert_no_cross_track_table`, with the table it is reading. -/
def checkTables (tracks : List (Str × BenchmarkTrack)) : List Str → List Str → Except Raised Unit
  | _, [] => .ok ()
  | table, line :: lines =>
      if isTableLine line then checkTables tracks (table ++ [line]) lines
      else do
        if table ≠ [] then checkTable tracks table
        checkTables tracks [] lines

/-- `assert_no_cross_track_table` -/
def assertNoCrossTrackTable (markdown : Str) (report : BenchmarkReport) : Except Raised Unit :=
  checkTables (systemTracks report) [] (splitlines markdown ++ [[]])

/-!
## Rows

A row, and what stands in its cells.
-/

/-- A text between backticks. -/
def code (text : Str) : Str := lit "`" ++ text ++ lit "`"

/-- `"| " + " | ".join(cells) + " |"` -/
def tableRow (cells : List Str) : Str := lit "| " ++ join " | " cells ++ lit " |"

/-- `TRACK_TITLES` -/
def BenchmarkTrack.title : BenchmarkTrack → Str
  | .memoryStore => "Memory-store track"
  | .agentMemory => "Agent-memory track"

/-- `TRACK_NOTES` -/
def BenchmarkTrack.note : BenchmarkTrack → Str
  | .memoryStore =>
      lit "Storage, retrieval, deletion, temporal, and authorization APIs are called directly. " ++
      lit "Systems in this table are compared only with each other, never with the agent-memory " ++
      lit "track."
  | .agentMemory =>
      lit "Memory is reached through one shared agent loop — same model, same prompts, same tool " ++
      lit "contract, same context budget for every backend; only the memory varies. Systems in " ++
      lit "this table are compared only with each other, never with the memory-store track."

/-- The cell of a case: supported or not, correct or not. -/
def cell (outcome : CaseOutcome) : Str :=
  if !outcome.supported then "·" else if outcome.correct then "✓" else "✗"

/-!
## Members

The systems of a track, the reference first and the others by their accuracy, which is a quotient
of counts.
-/

/-- An executed system, with what is looked up of it. -/
structure Member where
  name : Str
  entry : Entry
  cases : List CaseOutcome

/-- The cases that count for its accuracy. -/
def Member.supported (member : Member) : List CaseOutcome := member.cases.filter (·.supported)

/-- How many of these are correct. -/
def Member.correct (member : Member) : ℕ := member.supported.countP (·.correct)

/-- `name.startswith("marciana")` -/
def Member.isReference (member : Member) : Bool := (lit "marciana").isPrefixOf member.name

/-- `ranking_key`. The accuracy is a quotient of counts, and 0 where nothing is supported; the
    quotients of small numbers are ordered as their floats are. -/
def rankingKey (member : Member) : ℕ ×ₗ ℚ ×ₗ ℤ ×ₗ ℤ ×ₗ Str :=
  toLex (if member.isReference then 0 else 1,
    toLex (-((member.correct : ℚ) / member.supported.length),
      toLex (-(member.supported.length : ℤ), toLex (-(member.correct : ℤ), member.name))))

section Members

variable [Runtime]

/-- `systems[name]["cases"]` -/
def memberOf (report : BenchmarkReport) (name : Str) : Except Raised Member :=
  match report.systems.get? name with
  | none => .error ⟨.keyError, name.repr⟩
  | some entry =>
      match entry.cases with
      | none => .error ⟨.keyError, "'cases'"⟩
      | some cases => .ok ⟨name, entry, cases⟩

/-- `members` -/
def membersOf (report : BenchmarkReport) (track : BenchmarkTrack) : Except Raised (List Member) := do
  let names := ((systemTracks report).filter (·.2 = track)).map Prod.fst
  let members ← names.mapM (memberOf report)
  return members.mergeSort fun a b => !decide (rankingKey b < rankingKey a)

/-- `{c["case_id"]: c for c in cases}.get(id)` -/
def caseOf? (cases : List CaseOutcome) (id : Str) : Option CaseOutcome :=
  cases.reverse.find? (·.caseId = id)

/-- `cell(by_system[name][case_id])` -/
def caseCell (id : Str) (member : Member) : Except Raised Str :=
  match caseOf? member.cases id with
  | some outcome => .ok (cell outcome)
  | none => .error ⟨.keyError, id.repr⟩

/-- `categories.get(case_id, "")` -/
def categoryOf (cases : List CaseOutcome) (id : Str) : Str :=
  ((caseOf? cases id).map (·.category)).getD []

end Members

/-!
## Lines

The document, line by line. What is put into it from the report is put in as it is.
-/

section Lines

variable [Percent]

/-- `f"{acc:.0%} ({correct}/{len(supported)})"` -/
def correctnessText (correct supported : ℕ) : Str :=
  ofNat (if supported ≠ 0 then Percent.percent correct supported else 0) ++ lit "% (" ++
    ofNat correct ++ lit "/" ++ ofNat supported ++ lit ")"

/-- The first table of a track: a row for each system. -/
def systemsHeader : Str :=
  tableRow ["System", "Adapter", "Coverage", "Correctness within coverage"]

def systemsRule : Str := "|--------|---------|----------|-----------------------------|"

/-- The row of a system. Name and version are printed as they are. -/
def systemRow (member : Member) : Str :=
  tableRow [member.name, code member.entry.adapterVersion,
    ofNat member.supported.length ++ lit "/" ++ ofNat member.cases.length,
    correctnessText member.correct member.supported.length]

end Lines

def trackHeading (track : BenchmarkTrack) : Str := lit "## " ++ track.title

def matrixHeading (track : BenchmarkTrack) : Str := lit "### Case matrix — " ++ track.title.lower

/-- The second table of a track: a column for each system, a row for each case. -/
def caseHeader (members : List Member) : Str :=
  tableRow ("Case" :: "Category" :: members.map (·.name))

def caseRule (members : List Member) : Str :=
  lit "|------|----------|" ++ join "|" (members.map fun _ => lit "---") ++ lit "|"

/-- A row of the table of gates. -/
def gateRow (counts : Gate → ℕ) (gate : Gate) : Str :=
  tableRow [code gate.name, ofNat (counts gate)]

/-- The detail of a system that was not executed. -/
def detail (entry : Entry) : Str :=
  let missing := join ", " (entry.missingConfiguration.getD [])
  if missing ≠ [] then missing else entry.error.getD []

/-- A row of the systems that were not executed. Its last cell may have an error in it. -/
def absentRow (name : Str) (entry : Entry) : Str :=
  tableRow [name, entry.status.text, detail entry]

section Lines

variable [Runtime]

/-- The line of the attestation. -/
def harnessLine (harness : HarnessBlock) : Str :=
  let shown (key : String) : Str := (Json.lookup harness.items key .null).toStr
  lit "**Shared harness:** model `" ++ shown "model" ++ lit "` · seed " ++ shown "seed" ++
    lit " · temperature " ++ shown "temperature" ++ lit " · num_ctx " ++ shown "num_ctx" ++
    lit " · max turns " ++ shown "max_turns" ++ lit " · prompts `" ++ shown "prompt_digest" ++
    lit "` · tools `" ++ shown "tool_contract" ++ lit "`"

/-- The attestation that is printed: the first there is. -/
def sharedHarness (members : List Member) : Option HarnessBlock :=
  members.findSome? (·.entry.harness)

/-- The line of the attestation, if there is one, and a blank one. -/
def harnessLines (members : List Member) : List Str :=
  match sharedHarness members with
  | some harness => [harnessLine harness, []]
  | none => []

/-- A row of the case matrix, with the categories of the reference. -/
def caseRow (reference : Member) (members : List Member) (id : Str) : Except Raised Str := do
  let cells ← members.mapM (caseCell id)
  return tableRow (code id :: categoryOf reference.cases id :: cells)

/-- The rows of the case matrix, for the cases of the first member. -/
def caseRows (first : Member) (members : List Member) : Except Raised (List Str) :=
  let reference := (members.find? (·.isReference)).getD first
  (first.cases.map (·.caseId)).mapM (caseRow reference members)

/-- The lines before the first track. Profile and provider come from the metadata. -/
def headerLines (report : BenchmarkReport) : List Str := [
  "# MARCIANA-ADVERSARIAL-v2 comparative results",
  [],
  lit "**Benchmark:** " ++ report.benchmark,
  lit "**Corpus digest:** " ++ code report.corpusDigest,
  lit "**Overall status:** " ++ report.status.text,
  lit "**Profile:** " ++ (report.metadata.lookup (lit "profile")).getD [] ++ lit " on " ++
    (report.metadata.lookup (lit "provider")).getD [],
  [],
  lit "v2 separates systems by how their memory is reached and compares only within a track. " ++
  lit "The memory-store track calls each system's storage API directly; the agent-memory track " ++
  lit "drives every backend through one shared, controlled agent loop. A cell is ✓ when the " ++
  lit "system produced the correct outcome, ✗ when it did not (a finding about that system), " ++
  lit "and · when the case is unsupported — declared by the system, or inexpressible in the " ++
  lit "shared tool contract for the whole track. Correctness is shown together with coverage; " ++
  lit "scores over different coverage are not directly comparable, and scores across tracks are " ++
  lit "never comparable."]

/-- `sorted(report["hard_gates"].items())` -/
def sortedGates : List Gate := gates.mergeSort fun a b => !decide (b.name < a.name)

def gateHeader : Str := tableRow ["Gate", "Count"]

def gateRule : Str := "|------|-------|"

def gateTable (report : BenchmarkReport) : List Str :=
  gateHeader :: gateRule :: sortedGates.map (gateRow report.hardGates)

/-- The section of the gates. -/
def gateLines (report : BenchmarkReport) : List Str :=
  [[], lit "## Hard gates (Marciana reference)", []] ++ gateTable report

/-- `absent`, with the entries. -/
def absentSystems (report : BenchmarkReport) : List (Str × Entry) :=
  (report.systems.items.filter fun item => item.2.status ≠ .executed).mergeSort
    fun a b => !decide (b.1 < a.1)

def absentHeading : Str := "## Not executed"

def absentHeader : Str := tableRow ["System", "Status", "Detail"]

def absentRule : Str := "|--------|--------|--------|"

def absentTable (report : BenchmarkReport) : List Str :=
  absentHeader :: absentRule :: (absentSystems report).map fun item => absentRow item.1 item.2

/-- The section of the systems that were not executed, if there are any. -/
def absentLines (report : BenchmarkReport) : List Str :=
  if (absentSystems report).isEmpty then [] else [[], absentHeading, []] ++ absentTable report

/-- The last lines. -/
def legendLines : List Str := [[],
  lit "Legend: ✓ correct · ✗ failed (finding) · · unsupported (declared or track-inexpressible).",
  []]

variable [Percent]

def systemsTable (members : List Member) : List Str :=
  systemsHeader :: systemsRule :: members.map systemRow

def matrixTable (members : List Member) (rows : List Str) : List Str :=
  caseHeader members :: caseRule members :: rows

/-- The section of a track. -/
def sectionOf (track : BenchmarkTrack) (members : List Member) (rows : List Str) : List Str :=
  [[], trackHeading track, [], track.note, []] ++ harnessLines members ++ systemsTable members ++
    [[], matrixHeading track, []] ++ matrixTable members rows

/-- The section of a track. One without members has none. -/
def sectionLines (track : BenchmarkTrack) : List Member → Except Raised (List Str)
  | [] => .ok []
  | first :: rest => do
      let rows ← caseRows first (first :: rest)
      return sectionOf track (first :: rest) rows

/-- One pass of the loop over the tracks. -/
def trackLines (report : BenchmarkReport) (track : BenchmarkTrack) : Except Raised (List Str) := do
  let members ← membersOf report track
  sectionLines track members

/-- `lines` -/
def renderLines (report : BenchmarkReport) : Except Raised (List Str) := do
  let sections ← benchmarkTracks.mapM (trackLines report)
  return headerLines report ++ sections.flatten ++ gateLines report ++ absentLines report ++
    legendLines

/-- `render_v2` -/
def renderV2 (report : BenchmarkReport) : Except Raised Str := do
  let lines ← renderLines report
  let rendered := join "\n" lines
  assertNoCrossTrackTable rendered report
  return rendered

end Lines

end AdversarialCognition.Report
