import AdversarialCognition.Report.Core
import AdversarialCognition.Lib.Dict

/-!
# External adapters

`_parse_harness`, `_parse_external_outcomes` and `execute_external` of
`adversarial_cognition/adapters.py`. An adapter may print anything. What it printed is read into
outcomes, or the exception on the way becomes the error its system is reported with. Rows are
collected in a dictionary by their case ids before they are compared with the suite, so a row that
repeats an id replaces the one before it and the repetition is not seen.

## How a command can end

`AdapterRun` is all that the operating system has a part in: whether a command is configured,
whether it ran to an end within its time, what it printed. It is an input, so a result about it
holds whatever the command does. Two of its forms end in no report. A timeout of the environment
that is no integer raises before there is a handler. And a process that ran out of time leaves its
last words as bytes, on which the handler itself raises (`failureText`).

## Exceptions in a payload

Every value of a payload may have any type. The functions of `Lib/Untyped.lean` raise what Python
raises when a value is subscripted or iterated over and is not made for it, class and text, since
the text is what the system is reported with. A payload that is accepted is described by
`parseExternalOutcomes_cases`, part by part, and this is all that later modules use.
-/

namespace AdversarialCognition.Report

open Py Py.Str

section Parse

variable [Runtime]

/-- `str(value)[:128] if isinstance(value, str) else value` -/
def boundHarnessValue : Json → Json
  | .str s => .str (s.take 128)
  | value => value

/-- The keys the attestation lacks, in order. -/
def missingKeys (harness : List (Str × Json)) : List String :=
  harnessKeys.filter fun key => (Json.item? harness key).isNone

/-- The required keys of an attestation, with their values bounded. -/
def keepHarness (harness : List (Str × Json)) : HarnessBlock where
  items := harnessKeys.map fun key =>
    (lit key, boundHarnessValue (Json.lookup harness key .null))
  keys := by simp

/-- `_parse_harness` -/
def parseHarness (parsed : Json) (interface : Str) (benchmarkVersion : ℕ) :
    Except Raised (Option HarnessBlock) := do
  let harness ← parsed.getOr "harness" .null
  if benchmarkVersion < 2 then return none
  if interface ≠ lit "agent-loop" then return none
  match harness with
  | .obj harness =>
      if missingKeys harness ≠ [] then
        throw ⟨.valueError, lit "harness attestation missing keys: " ++
          (Json.list ((missingKeys harness).map fun key => .str (lit key))).repr⟩
      return some (keepHarness harness)
  | _ => throw ⟨.valueError, "agent-loop declared without a harness attestation"⟩

/-- A block is kept if the interface is an agent loop and the version asks for it. -/
theorem parseHarness_cases {parsed : Json} {interface : Str} {benchmarkVersion : ℕ}
    {harness : Option HarnessBlock}
    (h : parseHarness parsed interface benchmarkVersion = .ok harness) :
    (harness = none ∧ ¬ (2 ≤ benchmarkVersion ∧ interface = lit "agent-loop")) ∨
      ∃ items, parsed.getOr "harness" .null = .ok (.obj items) ∧ 2 ≤ benchmarkVersion ∧
        interface = lit "agent-loop" ∧ harness = some (keepHarness items) := by
  obtain ⟨value, hvalue, h⟩ := bind_eq_ok_iff.1 h
  by_cases hversion : benchmarkVersion < 2
  · rw [if_pos hversion] at h
    cases h
    exact .inl ⟨rfl, fun hboth => absurd hboth.1 (by omega)⟩
  rw [if_neg hversion] at h
  by_cases hinterface : interface = lit "agent-loop"
  · rw [if_neg (not_not.2 hinterface)] at h
    cases value with
    | obj items =>
      obtain ⟨-, hkept⟩ := ite_throw_eq_ok_iff.1 h
      cases hkept
      exact .inr ⟨items, hvalue, by omega, hinterface, rfl⟩
    | _ => cases h
  · rw [if_pos hinterface] at h
    cases h
    exact .inl ⟨rfl, fun hboth => hinterface hboth.2⟩

/-- The rows by case id, and whether one of them has an id that is not a string. -/
structure RowTable where
  byId : Dict Str Json
  foreign : Bool

/-- One row more of `{row["case_id"]: row for row in rows}`. -/
def RowTable.insert (table : RowTable) (row : Json) : Except Raised RowTable := do
  match ← row.subscript "case_id" with
  | .str id => return { table with byId := table.byId.set id row }
  | .list _ => throw ⟨.typeError, "unhashable type: 'list'"⟩
  | .obj _ => throw ⟨.typeError, "unhashable type: 'dict'"⟩
  | _ => return { table with foreign := true }

/-- `by_id` -/
def rowTable (rows : List Json) : Except Raised RowTable :=
  rows.foldlM RowTable.insert ⟨.empty, false⟩

/-- `set(by_id) == {case.case_id for case in suite}` -/
def RowTable.covers (table : RowTable) (suite : List SuiteCase) : Bool :=
  !table.foreign && table.byId.items.all (fun item => suite.any (·.caseId == item.1)) &&
    suite.all fun case => (table.byId.get? case.caseId).isSome

variable [Numerics]

/-- The outcome of a case, read from its row. -/
def outcomeOf (case : SuiteCase) (row : Json) : Except Raised CaseOutcome := do
  let correct ← row.subscript "correct"
  let allowed ← row.subscript "allowed"
  let returnedIds ← (← row.getOr "returned_ids" (.list [])).items
  let receipt ← row.getOr "receipt" (.str [])
  let latencyUs ← (← row.getOr "latency_us" (.float "0.0")).toFloat
  let supported ← row.getOr "supported" (.bool true)
  return { caseId := case.caseId, category := case.category, correct := correct.truthy,
           allowed := allowed.truthy, returnedIds := returnedIds.map (·.toStr),
           receipt := receipt.toStr, latencyUs := latencyUs, supported := supported.truthy }

/-- `by_id[case.case_id]`, read. -/
def RowTable.outcome (table : RowTable) (case : SuiteCase) : Except Raised CaseOutcome :=
  match table.byId.get? case.caseId with
  | some row => outcomeOf case row
  | none => .error ⟨.keyError, case.caseId.repr⟩

/-- What is read of a payload. -/
structure Parsed where
  version : Str
  interface : Str
  harness : Option HarnessBlock
  outcomes : List CaseOutcome

/-- The part of `_parse_external_outcomes` before the rows. -/
def parseHeader (parsed : Json) (benchmarkVersion : ℕ) :
    Except Raised (Str × Str × Option HarnessBlock) := do
  let version ← parsed.getOr "adapter_version" (.str adapterProtocol)
  let declared := match parsed with
    | .obj members => (Json.item? members "interface").isSome
    | _ => false
  if 2 ≤ benchmarkVersion ∧ declared = false then
    throw ⟨.valueError, "v2 adapter payload must declare its interface"⟩
  let interface ← parsed.getOr "interface" (.str (lit "direct-api"))
  let interface := interface.toStr.take 32
  let harness ← parseHarness parsed interface benchmarkVersion
  return (version.toStr.take 64, interface, harness)

omit [Numerics] in
theorem parseHeader_cases {parsed : Json} {benchmarkVersion : ℕ} {version interface : Str}
    {harness : Option HarnessBlock}
    (h : parseHeader parsed benchmarkVersion = .ok (version, interface, harness)) :
    ∃ versionValue interfaceValue,
      parsed.getOr "adapter_version" (.str adapterProtocol) = .ok versionValue ∧
      parsed.getOr "interface" (.str (lit "direct-api")) = .ok interfaceValue ∧
      version = versionValue.toStr.take 64 ∧ interface = interfaceValue.toStr.take 32 ∧
      parseHarness parsed interface benchmarkVersion = .ok harness := by
  obtain ⟨versionValue, hversion, h⟩ := bind_eq_ok_iff.1 h
  obtain ⟨-, h⟩ := ite_throw_eq_ok_iff.1 h
  obtain ⟨interfaceValue, hinterface, h⟩ := bind_eq_ok_iff.1 h
  obtain ⟨kept, hharness, h⟩ := bind_eq_ok_iff.1 h
  cases h
  exact ⟨versionValue, interfaceValue, hversion, hinterface, rfl, rfl, hharness⟩

/-- The part of it from the rows on. -/
def parseRows (parsed : Json) (suite : List SuiteCase) : Except Raised (List CaseOutcome) := do
  let rows ← (← parsed.subscript "cases").items
  let table ← rowTable rows
  if !table.covers suite then
    throw ⟨.valueError, "external adapter did not report every case exactly once"⟩
  suite.mapM table.outcome

/-- `_parse_external_outcomes` -/
def parseExternalOutcomes (payload : Str) (suite : List SuiteCase) (benchmarkVersion : ℕ) :
    Except Raised Parsed := do
  let parsed ← Json.parse payload
  let (version, interface, harness) ← parseHeader parsed benchmarkVersion
  let outcomes ← parseRows parsed suite
  return { version := version, interface := interface, harness := harness, outcomes := outcomes }

theorem parseExternalOutcomes_cases {payload : Str} {suite : List SuiteCase}
    {benchmarkVersion : ℕ} {found : Parsed}
    (h : parseExternalOutcomes payload suite benchmarkVersion = .ok found) :
    ∃ parsed, Json.parse payload = .ok parsed ∧
      parseHeader parsed benchmarkVersion = .ok (found.version, found.interface, found.harness) ∧
      parseRows parsed suite = .ok found.outcomes := by
  obtain ⟨parsed, hparsed, h⟩ := bind_eq_ok_iff.1 h
  obtain ⟨header, hheader, h⟩ := bind_eq_ok_iff.1 h
  obtain ⟨outcomes, houtcomes, h⟩ := bind_eq_ok_iff.1 h
  cases h
  exact ⟨parsed, hparsed, hheader, houtcomes⟩

/-!
## Running an adapter

What comes of a command, and what the harness makes of it. What is raised while a payload is read
becomes the error of the system; what is raised in the handler, or before it, is not caught at
all.
-/

/-- `stderr` of an exception. `capture_output` is decoded for a process that has exited, and handed
    over as it came for one that ran out of time. -/
inductive LastWords
  | text (s : Str)
  | bytes (b : List UInt8)

/-- What comes of an adapter's command: nothing is configured; the timeout of the environment is no
    integer, which `int` says before there is anything to catch it; the command prints a payload
    and exits with 0; or running it raises, with the text of the exception and the adapter's own
    last words. -/
inductive AdapterRun
  | unconfigured
  | badTimeout (error : Raised)
  | printed (stdout : Str)
  | failed (text : Str) (stderr : LastWords)

/-- `isspace` of a byte, as `bytes.strip` has it. -/
def isSpaceByte (b : UInt8) : Bool := b = 0x20 || (0x09 ≤ b && b ≤ 0x0D)

/-- The text a failure is reported with. Bytes have a `replace` of their own, which takes no text:
    what is raised there is raised within the handler, and so out of it. -/
def failureText (text : Str) : LastWords → Except Raised Str
  | .text stderr =>
      if stderr.strip ≠ [] then
        .ok (stderr.strip.map fun c => if c = CodePoint.ofChar '\n' then CodePoint.ofChar ' ' else c)
      else .ok text
  -- nothing but whitespace is falsy once it is stripped, and then the exception speaks for itself
  | .bytes stderr =>
      if stderr.all isSpaceByte then .ok text
      else .error ⟨.typeError, "a bytes-like object is required, not 'str'"⟩

/-- A system that failed, with its error cut to `maxErrorChars`. -/
def errorReport (system message : Str) : SystemReport where
  system := system
  adapterVersion := adapterProtocol
  status := .error
  error := message.take maxErrorChars

/-- A system without a command, with the name of the variable it lacks. -/
def unavailableReport (system commandVariable : Str) : SystemReport where
  system := system
  adapterVersion := adapterProtocol
  status := .unavailable
  missingConfiguration := [commandVariable]

/-- The report of a payload that was read. -/
def Parsed.report (parsed : Parsed) (system : Str) : SystemReport where
  system := system
  adapterVersion := parsed.version
  status := .executed
  interface := parsed.interface
  outcomes := parsed.outcomes
  harness := parsed.harness

/-- `execute_external`, given what came of the command. -/
def executeExternal (system commandVariable : Str) (suite : List SuiteCase)
    (benchmarkVersion : ℕ) : AdapterRun → Except Raised SystemReport
  | .unconfigured => .ok (unavailableReport system commandVariable)
  | .badTimeout error => .error error
  | .failed text stderr => do return errorReport system (← failureText text stderr)
  | .printed stdout =>
      match parseExternalOutcomes stdout suite benchmarkVersion with
      | .error e => .ok (errorReport system e.text)
      | .ok parsed => .ok (parsed.report system)

/-- The payload is accepted, and this is what is read of it. -/
def Accepted (suite : List SuiteCase) (benchmarkVersion : ℕ) (run : AdapterRun) (found : Parsed) :
    Prop :=
  ∃ stdout, run = .printed stdout ∧ parseExternalOutcomes stdout suite benchmarkVersion = .ok found

/-- **What a command is reported as**: unavailable, an error, or what is read of its payload. -/
theorem executeExternal_cases {system commandVariable : Str} {suite : List SuiteCase}
    {benchmarkVersion : ℕ} {run : AdapterRun} {report : SystemReport}
    (h : executeExternal system commandVariable suite benchmarkVersion run = .ok report) :
    (run = .unconfigured ∧ report = unavailableReport system commandVariable) ∨
      (run ≠ .unconfigured ∧ ∃ message, report = errorReport system message) ∨
      ∃ found, Accepted suite benchmarkVersion run found ∧ report = found.report system := by
  cases run with
  | unconfigured =>
    cases h
    exact .inl ⟨rfl, rfl⟩
  | badTimeout error => cases h
  | failed text stderr =>
    obtain ⟨message, -, h⟩ := bind_eq_ok_iff.1 h
    cases h
    exact .inr (.inl ⟨AdapterRun.noConfusion, message, rfl⟩)
  | printed stdout =>
    rw [executeExternal] at h
    cases hparse : parseExternalOutcomes stdout suite benchmarkVersion with
    | error e =>
      rw [hparse] at h
      cases h
      exact .inr (.inl ⟨AdapterRun.noConfusion, e.text, rfl⟩)
    | ok found =>
      rw [hparse] at h
      cases h
      exact .inr (.inr ⟨found, ⟨stdout, rfl, hparse⟩, rfl⟩)

theorem executeExternal_of_accepted (system commandVariable : Str) {suite : List SuiteCase}
    {benchmarkVersion : ℕ} {run : AdapterRun} {found : Parsed}
    (h : Accepted suite benchmarkVersion run found) :
    executeExternal system commandVariable suite benchmarkVersion run = .ok (found.report system) := by
  obtain ⟨stdout, rfl, hparse⟩ := h
  rw [executeExternal, hparse]

theorem executeExternal_system {system commandVariable : Str} {suite : List SuiteCase}
    {benchmarkVersion : ℕ} {run : AdapterRun} {report : SystemReport}
    (h : executeExternal system commandVariable suite benchmarkVersion run = .ok report) :
    report.system = system := by
  rcases executeExternal_cases h with ⟨-, rfl⟩ | ⟨-, message, rfl⟩ | ⟨found, -, rfl⟩
  · rfl
  · rfl
  · rfl

end Parse

end AdversarialCognition.Report
