import AdversarialCognition.Harness.Driver
import AdversarialCognition.Lib.Surrogates
import AdversarialCognition.Protocol.RunV2
import AdversarialCognition.Report.Coverage
import AdversarialCognition.Report.Manifest

/-!
# The two ends of the wire

The harness prints a request (`_external_request`), a driver reads it, runs its cases and prints a
payload, and the harness reads that (`_parse_external_outcomes`). Each end is modelled where it
belongs; here they are joined. What the driver reads is the suite
(`readRequest?_externalRequest`), and what the harness reads are the driver's rows, one for each
case and none changed (`parse_of_tells`). So an adapter that runs under one of the drivers is
never refused, and what it is reported with is what its cases came to: `run_reported` for
`protocol.run`, `runTrack_reported` for the agent-memory driver.

## A driver of any kind

The drivers print rows of their own forms. What the harness makes of a row is a matter of its
members (`Tells`), so the argument is made once, for rows of any type that are printed as objects
and have the members asked for (`executeExternal_rows`), and each driver instantiates it. The
header is one more parameter, as one of them attests to a harness and the others do not.

## Strings on the wire

JSON escapes what is not ASCII, and two escapes for the halves of a surrogate pair are read as one
character. Of a suite the strings are assumed to be of Unicode scalar values, so it is read as it
was. What a system returns is not under anyone's control, so for rows the result is stated with
the halves joined (`joined`), and nothing is assumed.

## What is taken as given

A driver reads the fields of a case at their types and in no other shape. How long a case took is
taken as given: `clock` is what `latency_us` prints as, by case, and it is asked that this is the
text of a float.
-/

namespace AdversarialCognition.Report

open Py Py.Str Json Prog

/-!
## The request

What the harness prints, and how a driver reads it. The strings of a suite are of valid Unicode,
so they are read as they were.
-/

/-- The keys of a request. -/
def requestMembers (suite : List SuiteCase) (repeats : ℤ) : List (Str × Json) := [
  ("protocol", .str adapterProtocol),
  ("repeats", .int repeats),
  ("cases", manifestCases suite)]

/-- `_external_request` -/
def externalRequest (suite : List SuiteCase) (repeats : ℤ) : Str :=
  canonical (.obj (requestMembers suite repeats))

/-- A field that is read as a string. -/
def strOf? : Json → Option Str
  | .str s => some s
  | _ => none

/-- As a truth value. -/
def boolOf? : Json → Option Bool
  | .bool b => some b
  | _ => none

/-- As a list of strings. -/
def strsOf? : Json → Option (List Str)
  | .list items => items.mapM strOf?
  | _ => none

/-- A field of a record that may be left out. -/
def optional {α : Type} (record : List (Str × Json)) (key : String) (read : Json → Option α) (absent : α) :
    Option α :=
  match item? record key with
  | some value => read value
  | none => some absent

/-- What a driver reads of a case. -/
def readCase? : Json → Option Case
  | .obj record => do
      let caseId ← (item? record "case_id").bind strOf?
      let expectedAllowed ← (item? record "expected_allowed").bind boolOf?
      let expectedIds ← optional record "expected_ids" strsOf? []
      let mustAbstain ← optional record "must_abstain" boolOf? false
      let forbiddenIds ← optional record "forbidden_ids" strsOf? []
      return { caseId := caseId, expectedAllowed := expectedAllowed, expectedIds := expectedIds,
               mustAbstain := mustAbstain, forbiddenIds := forbiddenIds }
  | _ => none

/-- `json.load(sys.stdin)["cases"]` -/
def readRequest? [Decoder] (text : Str) : Option (List Case) :=
  match loads text with
  | .ok (.obj request) =>
      match item? request "cases" with
      | some (.list records) => records.mapM readCase?
      | _ => none
  | _ => none

/-! ### What is read of it -/

section Request

theorem optional_of_some {α : Type} {record : List (Str × Json)} {key : String} {value : Json}
    (h : item? record key = some value) (read : Json → Option α) (absent : α) :
    optional record key read absent = read value := by
  rw [optional, h]

theorem mapM_map_of {α β : Type} {encode : α → Json} {read : Json → Option β} {f : α → β}
    {l : List α} (h : ∀ x ∈ l, read (encode x) = some (f x)) :
    (l.map encode).mapM read = some (l.map f) := by
  induction l with
  | nil => rfl
  | cons x l ih =>
    obtain ⟨hx, hl⟩ := List.forall_mem_cons.1 h
    rw [List.map_cons, List.mapM_cons, hx, ih hl]
    rfl

theorem strsOf?_strs (items : List Str) : strsOf? (strs items) = some items := by
  have h : (items.map Json.str).mapM strOf? = some (items.map id) := mapM_map_of fun _ _ => rfl
  rw [List.map_id] at h
  exact h

/-- A case is read as what was printed of it, its members in whatever order. -/
theorem readCase?_caseMembers (case : SuiteCase) :
    readCase? (sortKeys (.obj (caseMembers case))) = some case.toCase := by
  have hitem : ∀ key, item? ((sortMembers (caseMembers case)).mergeSort keyLe) key =
      (item? (caseMembers case) key).map sortKeys := item?_sortKeys (nodup_caseMembers case)
  have hid : item? ((sortMembers (caseMembers case)).mergeSort keyLe) "case_id" =
      some (.str case.caseId) := hitem "case_id"
  have hallowed : item? ((sortMembers (caseMembers case)).mergeSort keyLe) "expected_allowed" =
      some (.bool case.expectedAllowed) := hitem "expected_allowed"
  have hexpected : item? ((sortMembers (caseMembers case)).mergeSort keyLe) "expected_ids" =
      some (sortKeys (strs case.expectedIds)) := hitem "expected_ids"
  have habstain : item? ((sortMembers (caseMembers case)).mergeSort keyLe) "must_abstain" =
      some (.bool case.mustAbstain) := hitem "must_abstain"
  have hforbidden : item? ((sortMembers (caseMembers case)).mergeSort keyLe) "forbidden_ids" =
      some (sortKeys (strs case.forbiddenIds)) := hitem "forbidden_ids"
  rw [sortKeys_strs] at hexpected hforbidden
  rw [sortKeys]
  unfold readCase?
  simp only [hid, hallowed, optional_of_some hexpected, optional_of_some habstain,
    optional_of_some hforbidden, strsOf?_strs, Option.bind_some, strOf?, boolOf?,
    Option.bind_eq_bind, Option.pure_def]

theorem nodup_requestMembers (suite : List SuiteCase) (repeats : ℤ) :
    ((requestMembers suite repeats).map Prod.fst).Nodup := by
  simp [requestMembers]

variable [Decoder] {suite : List SuiteCase} {repeats : ℤ}

omit [Decoder] in
/-- A request can be read back: its strings are scalar and its number has fewer digits than the
    limit. -/
theorem printable_request (hsuite : ∀ case ∈ suite, case.Scalar)
    (hrepeats : repeats.natAbs < 10 ^ 4300) : Printable (.obj (requestMembers suite repeats)) := by
  refine ⟨nodup_requestMembers suite repeats, ?_⟩
  unfold requestMembers
  simp only [PrintableMembers]
  exact ⟨encodable_lit _, encodable_lit _, encodable_lit _, hrepeats, encodable_lit _,
    printable_manifestCases hsuite, trivial⟩

omit [Decoder] in
theorem depth_request_le (suite : List SuiteCase) (repeats : ℤ) :
    (Json.obj (requestMembers suite repeats)).depth ≤ 4 := by
  have hcase (case : SuiteCase) : (Json.obj (caseMembers case)).depth ≤ 2 := by
    simp only [caseMembers, depth, depthMembers, depth_strs]
    omega
  have hcases := depthItems_map_le hcase suite
  simp only [requestMembers, manifestCases, depth, depthMembers]
  omega

/-- **What a driver reads of the request is the suite.** -/
theorem readRequest?_externalRequest (hsuite : ∀ case ∈ suite, case.Scalar)
    (hrepeats : repeats.natAbs < 10 ^ 4300) :
    readRequest? (externalRequest suite repeats) = some (suite.map (·.toCase)) := by
  have hroom : (sortKeys (.obj (requestMembers suite repeats))).depth ≤ Decoder.room :=
    ((depth_sortKeys_le _).trans (depth_request_le suite repeats)).trans
      ((by decide : 4 ≤ 16).trans Decoder.ample)
  have hloads : loads (externalRequest suite repeats) =
      .ok (.obj ((sortMembers (requestMembers suite repeats)).mergeSort keyLe)) :=
    loads_dumps (printable_sortKeys (printable_request hsuite hrepeats)) hroom
  have hcases : item? ((sortMembers (requestMembers suite repeats)).mergeSort keyLe) "cases" =
      some (sortKeys (manifestCases suite)) :=
    item?_sortKeys (nodup_requestMembers suite repeats) "cases"
  rw [manifestCases, sortKeys, sortItems_eq, List.map_map] at hcases
  rw [readRequest?, hloads]
  dsimp only
  rw [hcases]
  exact mapM_map_of fun case _ => readCase?_caseMembers case

end Request

/-!
## The payload

What the harness reads of a payload that was printed. The argument is about rows that tell their
outcomes, and does not depend on the driver that printed them.
-/

/-- A payload of any driver: the header, what it attests of itself, and the rows. -/
def payloadMembers (version interface : Str) (attested : List (Str × Json)) (rows : List Json) :
    List (Str × Json) :=
  [(lit "adapter_version", .str version), (lit "interface", .str interface)] ++ attested ++
    [(lit "cases", .list rows)]

/-- `print(json.dumps(payload))` -/
def printLine (value : Json) : Str := value.dumps ++ lit "\n"

/-! ### What is read of a row -/

section Rows

variable [Runtime] [Numerics]

/-- The row is read as this outcome of the case: it can be read at all, it is found under the id
    of the case, and this is what is made of it. -/
structure Tells (row : Json) (case : SuiteCase) (outcome : CaseOutcome) : Prop where
  wellFormed : RowWellFormed row
  id : row.subscript "case_id" = .ok (.str case.caseId)
  outcome : outcomeOf case row = .ok outcome

/-- A row with these members, in whatever order and among whatever others. -/
theorem tells_of_items {items : List (Str × Json)} {case : SuiteCase} {outcome : CaseOutcome}
    (hcase : outcome.caseId = case.caseId) (hcategory : outcome.category = case.category)
    (hid : item? items "case_id" = some (.str case.caseId))
    (hcorrect : item? items "correct" = some (.bool outcome.correct))
    (hallowed : item? items "allowed" = some (.bool outcome.allowed))
    (hids : item? items "returned_ids" = some (strs outcome.returnedIds))
    (hreceipt : getOr (.obj items) "receipt" (.str []) = .ok (.str outcome.receipt))
    (hlatency : item? items "latency_us" = some (.float outcome.latencyUs))
    (hsupported : item? items "supported" = some (.bool outcome.supported)) :
    Tells (.obj items) case outcome := by
  -- each field is found under its key, by either way of looking it up
  have hsubscript : ∀ {key : String} {value : Json}, item? items key = some value →
      Json.subscript (.obj items) key = .ok value := by
    intro key value h
    unfold Json.subscript
    simp only [h]
  have hgetOr : ∀ {key : String} {value default : Json}, item? items key = some value →
      getOr (.obj items) key default = .ok value := by
    intro key value default h
    obtain ⟨item, hfind, hvalue⟩ := Option.map_eq_some_iff.1 h
    unfold getOr Json.get lookup
    simp only [hfind, Option.map_some, Option.getD_some, hvalue]
  have hstrs : (outcome.returnedIds.map Json.str).map (·.toStr) = outcome.returnedIds := by
    rw [List.map_map]
    exact List.map_id _
  refine ⟨⟨⟨_, hsubscript hid⟩, ⟨_, hsubscript hcorrect⟩, ⟨_, hsubscript hallowed⟩,
    ⟨_, _, hgetOr hids, rfl⟩, ⟨_, _, hgetOr hlatency, rfl⟩⟩, hsubscript hid, ?_⟩
  unfold outcomeOf
  rw [hsubscript hcorrect, hsubscript hallowed, hgetOr hids, hreceipt, hgetOr hlatency,
    hgetOr hsupported]
  simp only [Bind.bind, Except.bind, Json.items, Json.iter, strs, toFloat, pure, Except.pure, hstrs,
    truthy]
  obtain ⟨_, _, _, _, _, _, _, _⟩ := outcome
  subst hcase
  subst hcategory
  rfl

variable {rows all : List Json} {told : List (SuiteCase × CaseOutcome)}

theorem rowIds_of_tells (h : List.Forall₂ (fun row p => Tells row p.1 p.2) rows told) :
    rowIds rows = suiteIds (told.map Prod.fst) := by
  induction h with
  | nil => rfl
  | cons hrow _ ih =>
    rw [rowIds, List.filterMap_cons_some (rowId?_of_subscript hrow.id)]
    exact congrArg _ ih

/-- What is read from the only rows of the cases is what they tell. -/
theorem outcomes_of_tells (h : List.Forall₂ (fun row p => Tells row p.1 p.2) rows told)
    (hall : ∀ row ∈ rows, row ∈ all) {outcomes : List CaseOutcome}
    (hread : List.Forall₂ (ReadFromOnly all) (told.map Prod.fst) outcomes) :
    outcomes = told.map Prod.snd := by
  induction h generalizing outcomes with
  | nil =>
    cases hread
    rfl
  | cons hrow hrest ih =>
    rename_i row p rows told
    obtain ⟨hfirst, hlater⟩ := List.forall_mem_cons.1 hall
    cases hread with
    -- the row of the case is its only one among all rows, so this is the row that was read
    | cons honly hreads =>
      obtain ⟨only, hrows, houtcome⟩ := honly
      have hmem : row ∈ rowsOf p.1.caseId all := by
        rw [rowsOf, List.mem_filter]
        exact ⟨hfirst, decide_eq_true (rowId?_of_subscript hrow.id)⟩
      rw [hrows, List.mem_singleton] at hmem
      rw [← hmem, hrow.outcome, Except.ok.injEq] at houtcome
      rw [ih hlater hreads, List.map_cons, houtcome]

/-- **Rows that tell the outcomes of the suite are read as these**, none lost and none changed. -/
theorem parse_of_tells {payload : Str} {parsed : Json} {benchmarkVersion : ℕ}
    {version interface : Str} {harness : Option HarnessBlock}
    (hparsed : Json.parse payload = .ok parsed)
    (hheader : parseHeader parsed benchmarkVersion = .ok (version, interface, harness))
    (hcases : parsed.subscript "cases" = .ok (.list rows))
    (h : List.Forall₂ (fun row p => Tells row p.1 p.2) rows told)
    (hnodup : (suiteIds (told.map Prod.fst)).Nodup) :
    parseExternalOutcomes payload (told.map Prod.fst) benchmarkVersion =
      .ok { version := version, interface := interface, harness := harness,
            outcomes := told.map Prod.snd } := by
  have hids := rowIds_of_tells h
  have hrows : ∀ row ∈ rows, RowWellFormed row := by
    intro row hmem
    obtain ⟨p, -, hrow⟩ := exists_mem_of_forall₂ h row hmem
    exact hrow.wellFormed
  have hsame : SameIds rows (told.map Prod.fst) := by
    intro id
    rw [hids]
  obtain ⟨found, hfound, hread⟩ :=
    (parse_of_wellFormed ⟨⟨parsed, _, hparsed, hheader, hcases⟩, hrows⟩).1 hsame
  obtain ⟨found', hfound', hversion, hinterface, hharness⟩ :=
    accepted_of_header hparsed hheader hcases hrows hsame
  obtain rfl : found = found' := Except.ok.inj (hfound.symm.trans hfound')
  -- no id occurs twice, so the last row of an id is the only one
  have honly := readFromOnly_of_nodup (hids ▸ hnodup) hsame hread
  have houtcomes := outcomes_of_tells h (fun _ hmem => hmem) honly
  rw [hfound, Except.ok.injEq]
  obtain ⟨_, _, _, _⟩ := found
  subst hversion
  subst hinterface
  subst hharness
  subst houtcomes
  rfl

end Rows

/-! ### What is read of a payload -/

section Payloads

variable {version interface : Str} {attested : List (Str × Json)} {rows : List Json}

/-- To join the halves in a list of strings is to join them in each. -/
theorem joinStrings_strs (items : List Str) : joinStrings (strs items) = strs (items.map joined) := by
  rw [strs, joinStrings, joinItems_eq, List.map_map, strs, List.map_map]
  exact congrArg list (List.map_congr_left fun item _ => rfl)

/-- In a payload it is done part by part, and the keys are not affected. -/
theorem joinStrings_payload (version interface : Str) (attested : List (Str × Json))
    (rows : List Json) : joinStrings (.obj (payloadMembers version interface attested rows)) =
      .obj (payloadMembers (joined version) (joined interface) (joinMembers attested)
        (rows.map joinStrings)) := by
  rw [joinStrings, payloadMembers, joinMembers_append, joinMembers_append, ← joinItems_eq]
  rfl

/-- The rows of a payload are found behind whatever is attested. -/
theorem item?_payload (h : item? attested "cases" = none) :
    item? (payloadMembers version interface attested rows) "cases" = some (.list rows) := by
  have hnone : attested.find? (fun item => item.1 == lit "cases") = none :=
    Option.map_eq_none_iff.1 h
  rw [item?, payloadMembers, List.append_assoc, List.find?_append, List.find?_append, hnone]
  rfl

/-- The rows of a payload stand within two brackets of its own, what it attests within one. -/
theorem depth_payload_le (hattested : depthMembers attested ≤ 8)
    (hrows : ∀ row ∈ rows, row.depth ≤ 8) :
    (Json.obj (payloadMembers version interface attested rows)).depth ≤ 10 := by
  have hlist : (Json.list rows).depth ≤ 9 := Nat.succ_le_succ (depthItems_le_iff.2 hrows)
  refine Nat.succ_le_succ (depthMembers_le_iff.2 fun item hmem => ?_)
  rw [payloadMembers, List.mem_append, List.mem_append] at hmem
  rcases hmem with (hheader | hattest) | hcases
  · have hflat : item.2.depth = 0 := by
      rcases List.mem_pair.1 hheader with rfl | rfl
      · rfl
      · rfl
    exact hflat.le.trans (Nat.zero_le _)
  · exact (depthMembers_le_iff.1 hattested item hattest).trans (by decide)
  · rw [List.mem_singleton.1 hcases]
    exact hlist

variable [Decoder]

/-- A payload can be sent if what it attests and its rows can. -/
theorem sendable_payload (hnodup : ([lit "adapter_version", lit "interface"] ++
      attested.map Prod.fst ++ [lit "cases"]).Nodup)
    (hattested : SendableMembers attested) (hrows : ∀ row ∈ rows, Sendable row) :
    Sendable (.obj (payloadMembers version interface attested rows)) := by
  have hkey : ∀ word : String, Unpaired (lit word) :=
    fun word => unpaired_of_encodable (encodable_lit word)
  refine ⟨?_, ?_⟩
  · rw [payloadMembers, List.map_append, List.map_append]
    exact hnodup
  · rw [payloadMembers, sendableMembers_append, sendableMembers_append]
    exact ⟨⟨⟨hkey _, trivial, hkey _, trivial, trivial⟩, hattested⟩, hkey _,
      sendableItems_iff.2 hrows, trivial⟩

end Payloads

section Parse

variable [Runtime] [Numerics] {version interface : Str} {attested : List (Str × Json)}
  {rows : List Json}

omit [Runtime] in
/-- The line of a payload is read as the payload, with the halves joined in its strings. -/
theorem parse_printLine (h : Sendable (.obj (payloadMembers version interface attested rows)))
    (hroom : (Json.obj (payloadMembers version interface attested rows)).depth ≤ Decoder.room) :
    Json.parse (printLine (.obj (payloadMembers version interface attested rows))) =
      .ok (.obj (payloadMembers (joined version) (joined interface) (joinMembers attested)
        (rows.map joinStrings))) := by
  have hloads : loads (printLine (.obj (payloadMembers version interface attested rows))) =
      .ok (joinStrings (.obj (payloadMembers version interface attested rows))) :=
    (readAs_dumps_joined h).loads_append ((depth_joinStrings _).le.trans hroom)
      (enclosed_joinStrings _) (by decide)
  rw [Json.parse, hloads, joinStrings_payload]

omit [Numerics] in
/-- What the header is read as, if the attestation of the harness is. -/
theorem parseHeader_payload {benchmarkVersion : ℕ} {harness : Option HarnessBlock}
    (h : parseHarness (.obj (payloadMembers version interface attested rows)) (interface.take 32)
      benchmarkVersion = .ok harness) :
    parseHeader (.obj (payloadMembers version interface attested rows)) benchmarkVersion =
      .ok (version.take 64, interface.take 32, harness) := by
  have hversion : getOr (.obj (payloadMembers version interface attested rows)) "adapter_version"
      (.str adapterProtocol) = .ok (.str version) := rfl
  have hinterface : getOr (.obj (payloadMembers version interface attested rows)) "interface"
      (.str (lit "direct-api")) = .ok (.str interface) := rfl
  have hdeclared : (item? (payloadMembers version interface attested rows) "interface").isSome =
      true := rfl
  unfold parseHeader
  simp only [hversion, hinterface, hdeclared, Bind.bind, Except.bind, Bool.true_eq_false, and_false,
    if_false, toStr, h]
  rfl

omit [Numerics] in
/-- No attestation is looked for under the first version, nor but from an agent loop. -/
theorem parseHarness_none {items : List (Str × Json)} {benchmarkVersion : ℕ}
    (h : benchmarkVersion < 2 ∨ interface ≠ lit "agent-loop") :
    parseHarness (.obj items) interface benchmarkVersion = .ok none := by
  have hharness : getOr (.obj items) "harness" .null = .ok (lookup items "harness" .null) := rfl
  unfold parseHarness
  rw [hharness]
  simp only [Bind.bind, Except.bind]
  by_cases hversion : benchmarkVersion < 2
  · rw [if_pos hversion]
    rfl
  · rw [if_neg hversion, if_pos (h.resolve_left hversion)]
    rfl

/-- **A payload whose rows tell the outcomes of a suite is reported with these.** -/
theorem executeExternal_payload {told : List (SuiteCase × CaseOutcome)} {benchmarkVersion : ℕ}
    {harness : Option HarnessBlock}
    (hsend : Sendable (.obj (payloadMembers version interface attested rows)))
    (hroom : (Json.obj (payloadMembers version interface attested rows)).depth ≤ Decoder.room)
    (hcases : item? (joinMembers attested) "cases" = none)
    (hharness : parseHarness (.obj (payloadMembers (joined version) (joined interface)
      (joinMembers attested) (rows.map joinStrings))) ((joined interface).take 32)
      benchmarkVersion = .ok harness)
    (htold : List.Forall₂ (fun row p => Tells row p.1 p.2) (rows.map joinStrings) told)
    (hnodup : (suiteIds (told.map Prod.fst)).Nodup) (system commandVariable : Str) :
    executeExternal system commandVariable (told.map Prod.fst) benchmarkVersion
        (.printed (printLine (.obj (payloadMembers version interface attested rows)))) =
      .ok { system := system, adapterVersion := (joined version).take 64, status := .executed,
            interface := (joined interface).take 32, outcomes := told.map Prod.snd,
            harness := harness } := by
  have hsubscript : Json.subscript (.obj (payloadMembers (joined version) (joined interface)
      (joinMembers attested) (rows.map joinStrings))) "cases" =
        .ok (.list (rows.map joinStrings)) := by
    unfold Json.subscript
    simp only [item?_payload hcases]
  rw [executeExternal, parse_of_tells (parse_printLine hsend hroom) (parseHeader_payload hharness)
    hsubscript htold hnodup]
  rfl

end Parse

/-! ### One row for each case -/

section Drivers

variable [Runtime] [Numerics] {ρ : Type} {members : ρ → List (Str × Json)} {id : ρ → Str}
  {outcome : SuiteCase → ρ → CaseOutcome} {rows : List ρ} {suite : List SuiteCase}

/-- The rows of a driver, one for each case of the suite, tell the suite's outcomes. -/
theorem forall₂_tells (htells : ∀ {case : SuiteCase} {row : ρ}, id row = case.caseId →
      case.Scalar → Tells (joinStrings (.obj (members row))) case (outcome case row))
    (hids : rows.map id = suiteIds suite) (hsuite : ∀ case ∈ suite, case.Scalar) :
    List.Forall₂ (fun row p => Tells row p.1 p.2)
      ((rows.map fun row => Json.obj (members row)).map joinStrings)
      (suite.zip (List.zipWith outcome suite rows)) := by
  induction rows generalizing suite with
  | nil =>
    cases suite with
    | nil => exact .nil
    | cons case suite => cases hids
  | cons row rows ih =>
    cases suite with
    | nil => cases hids
    | cons case suite =>
      obtain ⟨hcase, hrest⟩ := List.forall_mem_cons.1 hsuite
      rw [List.map_cons, suiteIds, List.map_cons, List.cons.injEq] at hids
      exact .cons (htells hids.1 hcase) (ih hids.2 hrest)

/-- **What a driver prints is reported**, if it is one row for each case: the rows as they are,
    in the order of the suite, under the header it printed. -/
theorem executeExternal_rows (htells : ∀ {case : SuiteCase} {row : ρ}, id row = case.caseId →
      case.Scalar → Tells (joinStrings (.obj (members row))) case (outcome case row))
    (hids : rows.map id = suiteIds suite) (hsuite : ∀ case ∈ suite, case.Scalar)
    (hdistinct : (suiteIds suite).Nodup) {version interface : Str} {attested : List (Str × Json)}
    {benchmarkVersion : ℕ} {harness : Option HarnessBlock}
    (hnodup : ([lit "adapter_version", lit "interface"] ++
      attested.map Prod.fst ++ [lit "cases"]).Nodup)
    (hattested : SendableMembers attested) (hrows : ∀ row, Sendable (.obj (members row)))
    (hshallow : depthMembers attested ≤ 8) (hflat : ∀ row, (Json.obj (members row)).depth ≤ 8)
    (hharness : ∀ rows, parseHarness (.obj (payloadMembers (joined version) (joined interface)
      (joinMembers attested) rows)) ((joined interface).take 32) benchmarkVersion = .ok harness)
    (system commandVariable : Str) :
    executeExternal system commandVariable suite benchmarkVersion
        (.printed (printLine (.obj (payloadMembers version interface attested
          (rows.map fun row => .obj (members row)))))) =
      .ok { system := system, adapterVersion := (joined version).take 64, status := .executed,
            interface := (joined interface).take 32, outcomes := List.zipWith outcome suite rows,
            harness := harness } := by
  have hlength : suite.length = (List.zipWith outcome suite rows).length := by
    have hsame := congrArg List.length hids
    rw [List.length_map, suiteIds, List.length_map] at hsame
    rw [List.length_zipWith, hsame, Nat.min_self]
  have hsend : Sendable (.obj (payloadMembers version interface attested
      (rows.map fun row => .obj (members row)))) := by
    refine sendable_payload hnodup hattested fun item hmem => ?_
    obtain ⟨row, -, rfl⟩ := List.mem_map.1 hmem
    exact hrows row
  -- the rows are found under their key: nothing that is attested is named so
  have hcases : item? (joinMembers attested) "cases" = none := by
    have hnot : lit "cases" ∉ (joinMembers attested).map Prod.fst := by
      rw [map_fst_joinMembers]
      intro hmem
      rw [List.nodup_append] at hnodup
      exact hnodup.2.2 _ (List.mem_append_right _ hmem) _ (List.mem_singleton.2 rfl) rfl
    rw [item?, Option.map_eq_none_iff, List.find?_eq_none]
    intro item hmem hkey
    exact hnot (List.mem_map.2 ⟨item, hmem, beq_iff_eq.1 hkey⟩)
  have hroom : (Json.obj (payloadMembers version interface attested
      (rows.map fun row => .obj (members row)))).depth ≤ Decoder.room := by
    refine (depth_payload_le hshallow fun item hmem => ?_).trans
      ((by decide : 10 ≤ 16).trans Decoder.ample)
    obtain ⟨row, -, rfl⟩ := List.mem_map.1 hmem
    exact hflat row
  have hreport := executeExternal_payload hsend hroom hcases (hharness _)
    (forall₂_tells htells hids hsuite) (by rwa [List.map_fst_zip hlength.le]) system commandVariable
  rwa [List.map_fst_zip hlength.le, List.map_snd_zip hlength.ge] at hreport

end Drivers

/-!
## The memory-store drivers

The two drivers of memory stores as instances, from the request of the harness to its report.
Their systems may answer and raise what they like.
-/

/-- `latency_us` of a row: only a case that was completed took any time. -/
def latencyOf (clock : Str → Str) (row : Row) : Str :=
  if row.supported = true ∧ row.error = none then clock row.caseId else lit "0.0"

/-- A row of `_run_case`, as it is printed. -/
def rowMembers (clock : Str → Str) (row : Row) : List (Str × Json) :=
  [(lit "case_id", .str row.caseId),
    (lit "correct", .bool row.correct),
    (lit "allowed", .bool row.allowed),
    (lit "returned_ids", strs row.returnedIds),
    (lit "receipt", .str row.receipt),
    (lit "latency_us", .float (latencyOf clock row)),
    (lit "supported", .bool row.supported)] ++
  (row.error.map fun error => (lit "error", Json.str error)).toList

/-- What `run` prints. -/
def printPayload (clock : Str → Str) (payload : Payload) : Str :=
  printLine <| .obj <| payloadMembers payload.adapterVersion payload.interface []
    (payload.cases.map fun row => .obj (rowMembers clock row))

/-- An `AuthorizationCheck`, as it is printed. -/
def checkText : AuthorizationCheck → Str
  | .notApplicable => "not-applicable"
  | .passed => "passed"
  | .failedNegativeProbe => "failed-negative-probe"
  | .strippedUnauthenticated => "stripped-unauthenticated"

/-- What `run_v2` prints. -/
def printPayloadV2 (clock : Str → Str) (payload : PayloadV2) : Str :=
  printLine <| .obj <| payloadMembers payload.adapterVersion payload.interface
    [(lit "authorization_mechanism", .str payload.authorizationMechanism),
      (lit "authorization_check", .str (checkText payload.authorizationCheck))]
    (payload.cases.map fun row => .obj (rowMembers clock row))

/-- What the harness has of a row: the halves in its strings are joined, and the case is the
    suite's. -/
def reported (clock : Str → Str) (case : SuiteCase) (row : Row) : CaseOutcome where
  caseId := case.caseId
  category := case.category
  correct := row.correct
  allowed := row.allowed
  returnedIds := row.returnedIds.map joined
  receipt := joined row.receipt
  latencyUs := latencyOf clock row
  supported := row.supported

section Run

variable [Runtime] [Numerics] {clock : Str → Str} {suite : List SuiteCase} {rows : List Row}

theorem tells_rowMembers {case : SuiteCase} {row : Row} (hid : row.caseId = case.caseId)
    (hcase : case.Scalar) :
    Tells (joinStrings (.obj (rowMembers clock row))) case (reported clock case row) := by
  have hjoined : joined row.caseId = case.caseId := by
    rw [hid, joined_of_unpaired (unpaired_of_encodable hcase.caseId)]
  rw [joinStrings, rowMembers, joinMembers_append]
  refine tells_of_items rfl rfl ?_ rfl rfl ?_ rfl rfl rfl
  · show some (Json.str (joined row.caseId)) = _
    rw [hjoined]
  · show some (joinStrings (strs row.returnedIds)) = _
    rw [joinStrings_strs]
    rfl

omit [Runtime] in
theorem sendable_strs (items : List Str) : Sendable (strs items) := by
  refine sendableItems_iff.2 fun item hmem => ?_
  obtain ⟨text, -, rfl⟩ := List.mem_map.1 hmem
  trivial

omit [Runtime] [Numerics] in
theorem unpaired_lit (word : String) : Unpaired (lit word) :=
  unpaired_of_encodable (encodable_lit word)

omit [Runtime] in
theorem sendable_rowMembers {row : Row} (hclock : FloatText (latencyOf clock row)) :
    Sendable (.obj (rowMembers clock row)) := by
  have hkey := unpaired_lit
  cases herror : row.error with
  | none =>
    rw [rowMembers, herror]
    exact ⟨by simp, hkey _, trivial, hkey _, trivial, hkey _, trivial, hkey _, sendable_strs _,
      hkey _, trivial, hkey _, hclock, hkey _, trivial, trivial⟩
  | some error =>
    rw [rowMembers, herror]
    exact ⟨by simp, hkey _, trivial, hkey _, trivial, hkey _, trivial, hkey _, sendable_strs _,
      hkey _, trivial, hkey _, hclock, hkey _, trivial, hkey _, trivial, trivial⟩

omit [Runtime] [Numerics] in
theorem rowIds_of_disciplined {σ : Type} [Runtime] {m : MemorySystem σ} {rows : List Row}
    {trace : List (Event system)}
    (h : EachPass (CaseDiscipline m) (suite.map (·.toCase)) rows trace) :
    rows.map (·.caseId) = suiteIds suite := by
  rw [caseIds_of_eachPass h, List.map_map]
  rfl

omit [Runtime] [Numerics] in
theorem exists_of_mem_reported (hids : rows.map (·.caseId) = suiteIds suite)
    {outcome : CaseOutcome} (h : outcome ∈ List.zipWith (reported clock) suite rows) :
    ∃ row ∈ rows, row.caseId = outcome.caseId ∧ row.supported = outcome.supported := by
  induction rows generalizing suite with
  | nil =>
    rw [List.zipWith_nil_right] at h
    cases h
  | cons row rows ih =>
    cases suite with
    | nil => cases hids
    | cons case suite =>
      rw [List.map_cons, suiteIds, List.map_cons, List.cons.injEq] at hids
      rcases List.mem_cons.1 h with rfl | hlater
      · exact ⟨row, List.mem_cons_self, hids.1, rfl⟩
      · obtain ⟨later, hmem, hsame⟩ := ih hids.2 hlater
        exact ⟨later, List.mem_cons_of_mem _ hmem, hsame⟩

variable {benchmarkVersion : ℕ}

omit [Runtime] [Numerics] in
theorem depth_rowMembers_le (row : Row) : (Json.obj (rowMembers clock row)).depth ≤ 8 := by
  cases herror : row.error <;> simp [rowMembers, herror, depth, depthMembers]

/-- What `run` printed is reported, under the first version. -/
theorem executeExternal_printPayload {payload : Payload} (hsuite : ∀ case ∈ suite, case.Scalar)
    (hdistinct : (suiteIds suite).Nodup) (hids : payload.cases.map (·.caseId) = suiteIds suite)
    (hclock : ∀ row, FloatText (latencyOf clock row)) (hversion : benchmarkVersion < 2)
    (name commandVariable : Str) :
    executeExternal name commandVariable suite benchmarkVersion
        (.printed (printPayload clock payload)) =
      .ok { system := name, adapterVersion := (joined payload.adapterVersion).take 64,
            status := .executed, interface := (joined payload.interface).take 32,
            outcomes := List.zipWith (reported clock) suite payload.cases } := by
  have hnodup : ([lit "adapter_version", lit "interface"] ++
      ([] : List (Str × Json)).map Prod.fst ++ [lit "cases"]).Nodup := by decide
  exact executeExternal_rows tells_rowMembers hids hsuite hdistinct hnodup trivial
    (fun row => sendable_rowMembers (hclock row)) (Nat.zero_le _) depth_rowMembers_le
    (fun rows => parseHarness_none (.inl hversion)) name commandVariable

/-- What `run_v2` printed is reported, under either version: it is no agent loop. -/
theorem executeExternal_printPayloadV2 {payload : PayloadV2}
    (hsuite : ∀ case ∈ suite, case.Scalar) (hdistinct : (suiteIds suite).Nodup)
    (hids : payload.cases.map (·.caseId) = suiteIds suite)
    (hclock : ∀ row, FloatText (latencyOf clock row))
    (hinterface : payload.interface = lit "direct-api") (benchmarkVersion : ℕ)
    (name commandVariable : Str) :
    executeExternal name commandVariable suite benchmarkVersion
        (.printed (printPayloadV2 clock payload)) =
      .ok { system := name, adapterVersion := (joined payload.adapterVersion).take 64,
            status := .executed, interface := lit "direct-api",
            outcomes := List.zipWith (reported clock) suite payload.cases } := by
  have hnodup : ([lit "adapter_version", lit "interface"] ++
      [(lit "authorization_mechanism", Json.str payload.authorizationMechanism),
        (lit "authorization_check", .str (checkText payload.authorizationCheck))].map Prod.fst ++
      [lit "cases"]).Nodup := by
    simp
  have hdirect : (joined payload.interface).take 32 = lit "direct-api" := by
    rw [hinterface, joined_of_unpaired (unpaired_lit _)]
    rfl
  have hloop : (joined payload.interface).take 32 ≠ lit "agent-loop" := by
    rw [hdirect]
    decide
  rw [← hdirect]
  exact executeExternal_rows tells_rowMembers hids hsuite hdistinct hnodup
    ⟨unpaired_lit _, trivial, unpaired_lit _, trivial, trivial⟩
    (fun row => sendable_rowMembers (hclock row)) (Nat.zero_le _) depth_rowMembers_le
    (fun rows => parseHarness_none (.inr hloop)) name commandVariable

variable {σ : Type} {repeats : ℤ}

/-- **From the harness to a driver and back.** The driver reads the suite, whatever the system
    answers and raises it prints a row for each case, and the harness reports these rows and no
    error. What is lost on the way is that halves of a surrogate pair in a text of the system come
    back as one character, and that its name, version and interface are cut. -/
theorem run_reported (m : MemorySystem σ) (s : σ) (hsuite : ∀ case ∈ suite, case.Scalar)
    (hdistinct : (suiteIds suite).Nodup) (hrepeats : repeats.natAbs < 10 ^ 4300)
    (hclock : ∀ row, FloatText (latencyOf clock row)) (hversion : benchmarkVersion < 2)
    (name commandVariable : Str) :
    ∃ cases payload, cases = suite.map (·.toCase) ∧
      readRequest? (externalRequest suite repeats) = some cases ∧
      ((runRequest m cases).run m.world s).result = .ok payload ∧
      EachPass (CaseDiscipline m) cases payload.cases
        ((runRequest m cases).run m.world s).trace ∧
      executeExternal name commandVariable suite benchmarkVersion
          (.printed (printPayload clock payload)) =
        .ok { system := name, adapterVersion := (joined (m.name ++ lit "-" ++ m.version)).take 64,
              status := .executed, interface := (joined m.interface).take 32,
              outcomes := List.zipWith (reported clock) suite payload.cases } := by
  obtain ⟨rows, hrows, hpasses⟩ := eachPass_mapM (run_runCase m) (suite.map (·.toCase)) s
  refine ⟨suite.map (·.toCase), ⟨m.name ++ lit "-" ++ m.version, m.interface, rows⟩, rfl,
    readRequest?_externalRequest hsuite hrepeats, ?_⟩
  rw [runRequest, run_bind_of_ok hrows, run_pure, List.append_nil]
  exact ⟨rfl, hpasses, executeExternal_printPayload hsuite hdistinct
    (rowIds_of_disciplined hpasses) hclock hversion name commandVariable⟩

/-- **From the harness to the second driver and back**, if the system did not raise before the
    replay. Under either version of the benchmark a row about authorization that is reported as
    supported means that the system rejected the probe. -/
theorem runV2_reported (m : SystemV2 σ) {s : σ} {posture : Posture}
    (hprepare : ((prepare m.posture).run m.desk s).result = .ok posture)
    (hsuite : ∀ case ∈ suite, case.Scalar) (hdistinct : (suiteIds suite).Nodup)
    (hrepeats : repeats.natAbs < 10 ^ 4300) (hclock : ∀ row, FloatText (latencyOf clock row))
    (benchmarkVersion : ℕ) (name commandVariable : Str) :
    ∃ cases payload, cases = suite.map (·.toCase) ∧
      readRequest? (externalRequest suite repeats) = some cases ∧
      runV2 m cases s = .ok payload ∧
      executeExternal name commandVariable suite benchmarkVersion
          (.printed (printPayloadV2 clock payload)) =
        .ok { system := name, adapterVersion := (joined (m.name ++ lit "-" ++ m.version)).take 64,
              status := .executed, interface := lit "direct-api",
              outcomes := List.zipWith (reported clock) suite payload.cases } ∧
      ∀ outcome ∈ List.zipWith (reported clock) suite payload.cases,
        requiresAuthorization outcome.caseId = true → outcome.supported = true →
          Rejected m.posture ((prepare m.posture).run m.desk s).trace posture := by
  obtain ⟨payload, trace, hrun, hversion, hinterface, -, -, hpasses⟩ :=
    runV2_of_prepared m (suite.map (·.toCase)) hprepare
  have hids := rowIds_of_disciplined hpasses
  have hreport := executeExternal_printPayloadV2 hsuite hdistinct hids hclock hinterface
    benchmarkVersion name commandVariable
  rw [hversion] at hreport
  refine ⟨_, payload, rfl, readRequest?_externalRequest hsuite hrepeats, hrun, hreport, ?_⟩
  intro outcome hmem hauthorization hsupported
  obtain ⟨row, hrow, hcaseId, hrowSupported⟩ := exists_of_mem_reported hids hmem
  obtain ⟨-, posture', hposture', hrejected, -⟩ := rejected_of_credited m hrun hrow
    (hcaseId ▸ hauthorization) (hrowSupported.trans hsupported)
  obtain rfl : posture = posture' := Except.ok.inj (hprepare.symm.trans hposture')
  exact hrejected

end Run

section Examples

attribute [local instance] cpython Numerics.verbatim

theorem scalar_suiteCase (id : String) : (suiteCase id).Scalar where
  caseId := encodable_lit _
  category := encodable_lit _
  description := encodable_lit _
  expectedIds := fun _ hmem => absurd hmem List.not_mem_nil
  forbiddenIds := fun _ hmem => absurd hmem List.not_mem_nil

/-- Every case takes as long. -/
def steadyClock : Str → Str := fun _ => lit "12.5"

theorem floatText_steadyClock (row : Row) : FloatText (latencyOf steadyClock row) := by
  unfold latencyOf steadyClock
  split
  · exact .inr (.inr (.inr rfl))
  · exact .inr (.inr (.inr rfl))

def tenantSuite : List SuiteCase := [suiteCase "isolation-tenant"]

theorem scalar_tenantSuite : ∀ case ∈ tenantSuite, case.Scalar := by
  intro case hmem
  rw [List.mem_singleton.1 hmem]
  exact scalar_suiteCase _

theorem nodup_tenantSuite : (suiteIds tenantSuite).Nodup := List.nodup_singleton _

theorem once_lt : (1 : ℤ).natAbs < 10 ^ 4300 :=
  printable_ofNat (show 1 ≤ 4300 by omega) (show 1 < 10 ^ 1 by omega)

/-- A store that takes everything and recalls nothing. -/
def takingStore : World system Unit := fun _ call =>
  match call with
  | .reset => (.ok (), ())
  | .remember _ => (.ok true, ())
  | .recall _ _ _ => (.ok [], ())
  | .forget _ _ => (.ok true, ())
  | .improve _ _ _ _ _ _ => (.ok true, ())
  | .restart => (.ok (), ())

/-- The store that takes everything, behind a desk that is honest. -/
def takingSystem : SystemV2 Unit where
  posture := claiming
  desk := desk (lit "9f3a")
  store := takingStore

/-- The first driver with this store. -/
theorem run_reported_taking : ∃ cases payload report,
    readRequest? (externalRequest tenantSuite 1) = some cases ∧
      executeExternal (lit "taking") (lit "TAKING_CMD") tenantSuite 1
        (.printed (printPayload steadyClock payload)) = .ok report ∧ report.status = .executed := by
  obtain ⟨cases, payload, -, hcases, -, -, hreport⟩ := run_reported
    { capabilities := {.isolation}, world := takingStore } () scalar_tenantSuite nodup_tenantSuite
    once_lt floatText_steadyClock (by decide : 1 < 2) (lit "taking") (lit "TAKING_CMD")
  exact ⟨cases, payload, _, hcases, hreport, rfl⟩

/-- The second driver with it. -/
theorem runV2_reported_taking : ∃ payload report,
    runV2 takingSystem (tenantSuite.map (·.toCase)) () = .ok payload ∧
      executeExternal (lit "taking") (lit "TAKING_CMD") tenantSuite 2
        (.printed (printPayloadV2 steadyClock payload)) = .ok report ∧
      report.status = .executed := by
  have hprepare : ∃ posture,
      ((prepare takingSystem.posture).run takingSystem.desk ()).result = .ok posture := ⟨_, rfl⟩
  obtain ⟨posture, hposture⟩ := hprepare
  obtain ⟨cases, payload, rfl, -, hrun, hreport, -⟩ := runV2_reported takingSystem hposture
    scalar_tenantSuite nodup_tenantSuite once_lt floatText_steadyClock 2 (lit "taking")
    (lit "TAKING_CMD")
  exact ⟨payload, _, hrun, hreport, rfl⟩

end Examples

end AdversarialCognition.Report
