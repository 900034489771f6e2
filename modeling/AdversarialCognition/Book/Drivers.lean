import AdversarialCognition.Book.Comparison
import AdversarialCognition.Lib.Surrogates
import AdversarialCognition.Lib.Prog
import AdversarialCognition.Report.Wire

/-!
# Drivers of a comparison

The harness of a comparison prints a request (`_request`), a driver reads it, prints a row for
each case, and the harness scores these.

## What is scored

What the driver found is what is scored, if it supports only what it claims and says that nothing
is correct which it does not support (`executeExternal_printPayload`). This goes through both
prints: what the driver reads of the request is the suite (`readRequest?_request`), and what the
harness reads of the payload are the rows (`parse_printPayload`). A version is read with halves of
surrogate pairs joined and cut to 64 characters; the ids are those of the suite, which are of
valid Unicode, and come back as they are.

## The driver

It is `run` of `capability/adapters/common.py`, which asks an adapter for one case after another,
and only for those whose capability is claimed. Whatever the adapter answers and raises,
`capability_reported` says what its system is reported with. The adapter is any world: an answer
may depend on all that came before it.

## What is left out

A driver reads the fields of a case at their types and in no other shape. What an adapter writes
to stderr is not read by the harness as long as it exits with zero.
-/

namespace AdversarialCognition.Comparison

open Py Py.Str Json Prog

/-!
## The request

What the harness prints for a driver, and how a driver reads it.
-/

/-- A case of the request. -/
def caseMembers (case : Case) : List (Str × Json) := [
  ("case_id", .str case.caseId),
  ("capability", .str case.capability),
  ("category", .str case.category),
  ("gate", .str case.gate),
  ("description", .str case.description)]

/-- The members of the request. -/
def requestMembers (b : Benchmark) (suite : List Case) : List (Str × Json) := [
  ("protocol", .str b.adapterProtocol),
  ("cases", .list (suite.map fun case => .obj (caseMembers case)))]

/-- `_request` -/
def request (b : Benchmark) (suite : List Case) : Str := canonical (.obj (requestMembers b suite))

/-- What a driver reads of a case: which one it is, and what it takes to be asked for it. -/
structure Requested where
  caseId : Str
  capability : Str
  deriving DecidableEq

/-- The two fields, if the record has them as strings. -/
def readRequested? : Json → Option Requested
  | .obj record => do
      let caseId ← (item? record "case_id").bind Report.strOf?
      let capability ← (item? record "capability").bind Report.strOf?
      return ⟨caseId, capability⟩
  | _ => none

/-- `json.load(sys.stdin)["cases"]` -/
def readRequest? [Decoder] (text : Str) : Option (List Requested) :=
  match loads text with
  | .ok (.obj request) =>
      match item? request "cases" with
      | some (.list records) => records.mapM readRequested?
      | _ => none
  | _ => none

/-- What a driver is to read of this case. -/
def Case.requested (case : Case) : Requested := ⟨case.caseId, case.capability⟩

/-!
## The payload

What a driver prints, row by row.
-/

/-- A row that a driver prints. -/
structure DriverRow where
  caseId : Str
  supported : Bool := false
  correct : Bool := false
  deriving DecidableEq

/-- The members of a row, as it is printed. -/
def DriverRow.members (row : DriverRow) : List (Str × Json) := [
  ("case_id", .str row.caseId),
  ("supported", .bool row.supported),
  ("correct", .bool row.correct)]

/-- The members of a payload. The claims are a set in the source, and printed in order. -/
def payloadMembers (version : Str) (claimed : List Str) (rows : List DriverRow) :
    List (Str × Json) := [
  ("adapter_version", .str version),
  ("capabilities", strs (Report.sorted claimed.dedup)),
  ("cases", .list (rows.map fun row => .obj row.members))]

/-- What a driver prints. -/
def printPayload (version : Str) (claimed : List Str) (rows : List DriverRow) : Str :=
  dumps (.obj (payloadMembers version claimed rows))

/-- What the harness has of a row that is scored as it is. -/
def reported (case : Case) (row : DriverRow) : Row := caseRow case row.supported row.correct

/-!
## What is read of the request

The request can be read back: it repeats no key, its texts can be encoded, and it is shallow. So a
driver gets the suite, case by case and in order.
-/

section Request

variable {b : Benchmark}

/-- A case is read as it was printed, though its keys are sorted by then. -/
theorem readRequested?_caseMembers (case : Case) :
    readRequested? (sortKeys (.obj (caseMembers case))) = some case.requested := by
  have hnodup : ((caseMembers case).map Prod.fst).Nodup := by simp [caseMembers]
  have hitem : ∀ key, item? ((sortMembers (caseMembers case)).mergeSort keyLe) key =
      (item? (caseMembers case) key).map sortKeys := item?_sortKeys hnodup
  have hid : item? ((sortMembers (caseMembers case)).mergeSort keyLe) "case_id" =
      some (.str case.caseId) := hitem "case_id"
  have hcapability : item? ((sortMembers (caseMembers case)).mergeSort keyLe) "capability" =
      some (.str case.capability) := hitem "capability"
  rw [sortKeys]
  unfold readRequested?
  simp only [hid, hcapability, Option.bind_some, Report.strOf?, Option.bind_eq_bind,
    Option.pure_def]
  rfl

theorem nodup_requestMembers (b : Benchmark) (suite : List Case) :
    ((requestMembers b suite).map Prod.fst).Nodup := by
  simp [requestMembers]

theorem encodable_of_mem_capabilities {name : Str} (h : name ∈ b.capabilities) : Encodable name := by
  have hall : ∀ name ∈ b.capabilities, Encodable name := by
    cases b with
    | catalogProvenance => simp [Benchmark.capabilities, encodable_lit]
    | capabilityAdversarial => simp [Benchmark.capabilities, encodable_lit]
  exact hall name h

theorem encodable_of_mem_gates {name : Str} (h : name ∈ b.gates) : Encodable name := by
  have hall : ∀ name ∈ b.gates, Encodable name := by
    cases b with
    | catalogProvenance => simp [Benchmark.gates, encodable_lit]
    | capabilityAdversarial => simp [Benchmark.gates, encodable_lit]
  exact hall name h

/-- The texts that are no literals of a case can be encoded, and the literals can. -/
theorem encodable_case (suite : Suite b) {case : Case} (hcase : case ∈ suite.cases) :
    Encodable case.caseId ∧ Encodable case.capability ∧ Encodable case.category ∧
      Encodable case.gate ∧ Encodable case.description := by
  obtain ⟨hid, hcategory, hdescription⟩ := suite.scalar case hcase
  refine ⟨hid, encodable_of_mem_capabilities (suite.known case hcase), hcategory, ?_, hdescription⟩
  by_cases hnil : case.gate = []
  · rw [hnil]
    exact List.forall_mem_nil _
  · exact encodable_of_mem_gates (suite.guarded case hcase hnil)

theorem printable_request (suite : Suite b) : Printable (.obj (requestMembers b suite.cases)) := by
  have hprotocol : Encodable b.adapterProtocol := by
    cases b with
    | catalogProvenance => exact encodable_lit _
    | capabilityAdversarial => exact encodable_lit _
  have hcases : PrintableItems (suite.cases.map fun case => .obj (caseMembers case)) := by
    rw [printableItems_iff, List.forall_mem_map]
    intro case hcase
    obtain ⟨hid, hcapability, hcategory, hgate, hdescription⟩ := encodable_case suite hcase
    refine ⟨by simp [caseMembers], ?_⟩
    exact ⟨encodable_lit _, hid, encodable_lit _, hcapability, encodable_lit _, hcategory,
      encodable_lit _, hgate, encodable_lit _, hdescription, trivial⟩
  exact ⟨nodup_requestMembers b suite.cases,
    encodable_lit _, hprotocol, encodable_lit _, hcases, trivial⟩

theorem depth_request_le (suite : List Case) : (Json.obj (requestMembers b suite)).depth ≤ 3 := by
  have hcase (case : Case) : (Json.obj (caseMembers case)).depth ≤ 1 := by
    simp only [caseMembers, depth, depthMembers]
    omega
  have hcases := depthItems_map_le hcase suite
  simp only [requestMembers, depth, depthMembers]
  omega

/-- **What a driver reads of the request is the suite.** -/
theorem readRequest?_request [Decoder] (suite : Suite b) :
    readRequest? (request b suite.cases) = some (suite.cases.map (·.requested)) := by
  have hroom : (sortKeys (.obj (requestMembers b suite.cases))).depth ≤ Decoder.room :=
    ((depth_sortKeys_le _).trans (depth_request_le suite.cases)).trans
      ((by decide : 3 ≤ 16).trans Decoder.ample)
  have hloads : loads (request b suite.cases) =
      .ok (.obj ((sortMembers (requestMembers b suite.cases)).mergeSort keyLe)) :=
    loads_dumps (printable_sortKeys (printable_request suite)) hroom
  have hcases : item? ((sortMembers (requestMembers b suite.cases)).mergeSort keyLe) "cases" =
      some (sortKeys (.list (suite.cases.map fun case => .obj (caseMembers case)))) :=
    item?_sortKeys (nodup_requestMembers b suite.cases) "cases"
  rw [sortKeys, sortItems_eq, List.map_map] at hcases
  rw [readRequest?, hloads]
  dsimp only
  rw [hcases]
  exact Report.mapM_map_of fun case _ => readRequested?_caseMembers case

end Request

/-!
## What is read of a payload

The same of the payload, and then the parse of the harness: the table of rows covers the suite,
and the row of each case is the one that was printed for it.
-/

section Rows

variable [Runtime] {rows : List Json}

theorem rowTable_of_ids (h : ∀ row ∈ rows, ∃ id, row.subscript "case_id" = .ok (.str id)) :
    ∃ table, Report.rowTable rows = .ok table ∧ table.foreign = false := by
  have hloop : ∀ table : Report.RowTable, table.foreign = false →
      ∃ final, rows.foldlM Report.RowTable.insert table = .ok final ∧ final.foreign = false := by
    induction rows with
    | nil => exact fun table hforeign => ⟨table, rfl, hforeign⟩
    | cons row rows ih =>
      intro table hforeign
      obtain ⟨hrow, hrest⟩ := List.forall_mem_cons.1 h
      obtain ⟨id, hid⟩ := hrow
      have hinsert : table.insert row = .ok { table with byId := table.byId.set id row } := by
        rw [Report.RowTable.insert, hid]
        rfl
      obtain ⟨final, hfinal, hsame⟩ := ih hrest { table with byId := table.byId.set id row } hforeign
      refine ⟨final, ?_, hsame⟩
      rw [List.foldlM_cons, hinsert]
      exact hfinal
  exact hloop ⟨.empty, false⟩ rfl

variable {b : Benchmark} {table : Report.RowTable} {suite : List Case}

theorem coversSuite_of_ids (htable : Report.rowTable rows = .ok table)
    (hforeign : table.foreign = false) (hids : Report.rowIds rows = suite.map (·.caseId)) :
    coversSuite table suite = true := by
  have hmem : ∀ id, (table.byId.get? id).isSome ↔ id ∈ suite.map (·.caseId) := by
    intro id
    rw [Report.get?_rowTable htable, List.getLast?_isSome, ← hids, Report.mem_rowIds_iff]
  simp only [coversSuite, hforeign, Bool.not_false, Bool.true_and, Bool.and_eq_true,
    List.all_eq_true, List.any_eq_true, beq_iff_eq]
  refine ⟨fun item hitem => ?_, fun case hcase => (hmem _).2 (List.mem_map_of_mem hcase)⟩
  have hsome : (table.byId.get? item.1).isSome := by
    rw [Dict.mem_items_iff.1 hitem]
    rfl
  obtain ⟨case, hcase, hid⟩ := List.mem_map.1 ((hmem item.1).1 hsome)
  exact ⟨case, hcase, hid⟩

end Rows

section Payload

variable {b : Benchmark} {suite : Suite b} {version : Str} {claimed : List Str}
  {rows : List DriverRow}

/-- The capabilities are written in characters that are no surrogates and make none. -/
theorem low_of_mem_capabilities {name : Str} (h : name ∈ b.capabilities) :
    ∀ c ∈ name, c.val < 0x10000 := by
  have hlow : ∀ {cs : List Char}, (cs.all fun c => c.toNat < 0x10000) = true →
      ∀ c ∈ lit (String.ofList cs), c.val < 0x10000 := by
    intro cs hcs
    rw [lit, String.toList_ofList]
    exact List.forall_mem_map.2 fun c hc => of_decide_eq_true (List.all_eq_true.1 hcs c hc)
  have hall : ∀ name ∈ b.capabilities, ∀ c ∈ name, c.val < 0x10000 := by
    cases b with
    | catalogProvenance =>
      repeat' first
        | exact List.forall_mem_nil _
        | refine List.forall_mem_cons.2 ⟨hlow (by decide), ?_⟩
    | capabilityAdversarial =>
      repeat' first
        | exact List.forall_mem_nil _
        | refine List.forall_mem_cons.2 ⟨hlow (by decide), ?_⟩
  exact hall name h

/-- The claims as the harness has them: those of the driver that it knows, in the order of the
    print. -/
def claimsOf (b : Benchmark) (claimed : List Str) : List Str :=
  (((Report.sorted claimed.dedup).map joined).map Json.str).filterMap (knownCapability? b)

/-- A claim of a capability there is is read as it was printed, and nothing else is read as one. -/
theorem mem_claimsOf_iff {capability : Str} : capability ∈ claimsOf b claimed ↔
    capability ∈ claimed ∧ capability ∈ b.capabilities := by
  have hsome : ∀ claim, knownCapability? b (.str claim) = some capability ↔
      claim = capability ∧ capability ∈ b.capabilities := by
    intro claim
    rw [knownCapability?]
    by_cases hmem : claim ∈ b.capabilities
    · rw [if_pos hmem, Option.some_inj]
      exact ⟨fun heq => ⟨heq, heq ▸ hmem⟩, fun hboth => hboth.1⟩
    · rw [if_neg hmem]
      refine iff_of_false (Option.some_ne_none _).symm fun hboth => ?_
      exact hmem (hboth.1 ▸ hboth.2)
  simp only [claimsOf, List.mem_filterMap, List.mem_map, exists_exists_and_eq_and, hsome,
    Report.mem_sorted, List.mem_dedup]
  constructor
  · intro h
    obtain ⟨claim, hclaim, hjoined, hmem⟩ := h
    rw [eq_of_joined hjoined (low_of_mem_capabilities hmem)] at hclaim
    exact ⟨hclaim, hmem⟩
  · intro h
    refine ⟨capability, h.1, ?_, h.2⟩
    exact joined_of_unpaired (unpaired_of_encodable (encodable_of_mem_capabilities h.2))

/-- A payload can be sent, whatever its texts are. -/
theorem sendable_payload [Numerics] (version : Str) (claimed : List Str) (rows : List DriverRow) :
    Sendable (.obj (payloadMembers version claimed rows)) := by
  have hkey := Report.unpaired_lit
  have hrows : SendableItems (rows.map fun row => .obj row.members) := by
    refine sendableItems_iff.2 fun item hmem => ?_
    obtain ⟨row, -, rfl⟩ := List.mem_map.1 hmem
    exact ⟨by simp [DriverRow.members], hkey _, trivial, hkey _, trivial, hkey _, trivial, trivial⟩
  exact ⟨by simp [payloadMembers], hkey _, trivial, hkey _, Report.sendable_strs _, hkey _, hrows,
    trivial⟩

theorem depth_payload_le (version : Str) (claimed : List Str) (rows : List DriverRow) :
    (Json.obj (payloadMembers version claimed rows)).depth ≤ 3 := by
  have hrow (row : DriverRow) : (Json.obj row.members).depth ≤ 1 := by
    simp only [DriverRow.members, depth, depthMembers]
    omega
  have hrows := depthItems_map_le hrow rows
  simp only [payloadMembers, depth, depthMembers, depth_strs]
  omega

/-- The rows of a driver are read as they were printed, if their ids are those of a suite. -/
theorem joinStrings_row (hrows : rows.map (·.caseId) = suite.cases.map (·.caseId)) :
    (rows.map fun row => Json.obj row.members).map joinStrings =
      rows.map fun row => Json.obj row.members := by
  rw [List.map_map]
  refine List.map_congr_left fun row hrow => ?_
  have hid : row.caseId ∈ suite.cases.map (·.caseId) := hrows ▸ List.mem_map_of_mem hrow
  obtain ⟨case, hcase, hsame⟩ := List.mem_map.1 hid
  have hjoined : joined row.caseId = row.caseId := by
    rw [← hsame]
    exact joined_of_unpaired (unpaired_of_encodable (suite.scalar case hcase).1)
  show Json.obj [(lit "case_id", .str (joined row.caseId)), (lit "supported", .bool row.supported),
    (lit "correct", .bool row.correct)] = _
  rw [hjoined]
  rfl

variable [Runtime] [Numerics]

omit [Numerics] in
theorem readRow_of_mem {table : Report.RowTable} {claims : List Str} {case : Case} {row : DriverRow}
    (hget : table.byId.get? case.caseId = some (.obj row.members))
    (hclaimed : row.supported = true → case.capability ∈ claims)
    (hcorrect : row.correct = true → row.supported = true) :
    readRow table claims case = .ok (reported case row) := by
  have hsupported : Json.getOr (.obj row.members) "supported" (.bool false) =
      .ok (.bool row.supported) := rfl
  have hright : Json.getOr (.obj row.members) "correct" (.bool false) = .ok (.bool row.correct) := rfl
  have hsame : (row.supported && decide (case.capability ∈ claims)) = row.supported := by
    cases h : row.supported with
    | true => simp [hclaimed h]
    | false => rfl
  have hboth : (row.supported && row.correct) = row.correct := by
    cases h : row.correct with
    | true => simp [hcorrect h]
    | false => exact Bool.and_false _
  rw [readRow, hget]
  dsimp only
  rw [hsupported, hright]
  simp only [Bind.bind, Except.bind, truthy, hsame, hboth]
  rfl

/-- What is found in a payload that was printed: the version and the claims with halves of pairs
    joined, and the rows as they are. -/
theorem parse_printPayload (version : Str) (claimed : List Str)
    (hids : rows.map (·.caseId) = suite.cases.map (·.caseId))
    {blank : Str} (hblank : skip blank = []) : ∃ parsed,
      Json.parse (printPayload version claimed rows ++ blank) = .ok parsed ∧
      parsed.getOr "adapter_version" (.str b.adapterProtocol) = .ok (.str (joined version)) ∧
      parsed.getOr "capabilities" (.list []) =
        .ok (strs ((Report.sorted claimed.dedup).map joined)) ∧
      parsed.subscript "cases" = .ok (.list (rows.map fun row => .obj row.members)) := by
  have hroom : (joinStrings (.obj (payloadMembers version claimed rows))).depth ≤ Decoder.room := by
    rw [depth_joinStrings]
    exact (depth_payload_le version claimed rows).trans ((by decide : 3 ≤ 16).trans Decoder.ample)
  have hloads : loads (printPayload version claimed rows ++ blank) =
      .ok (joinStrings (.obj (payloadMembers version claimed rows))) :=
    (readAs_dumps_joined (sendable_payload version claimed rows)).loads_append hroom
      (enclosed_joinStrings _) hblank
  have hjoined : joinStrings (.obj (payloadMembers version claimed rows)) =
      .obj [(lit "adapter_version", .str (joined version)),
        (lit "capabilities", joinStrings (strs (Report.sorted claimed.dedup))),
        (lit "cases", .list (joinItems (rows.map fun row => .obj row.members)))] := rfl
  rw [hjoined, Report.joinStrings_strs, joinItems_eq, joinStrings_row hids] at hloads
  exact ⟨_, by rw [Json.parse, hloads], rfl, rfl, rfl⟩

/-- **The rows of a driver are scored as they are**, one for each case, if none is supported beyond
    the claims and none correct that is not supported. -/
theorem parsePayload_printPayload (hids : rows.map (·.caseId) = suite.cases.map (·.caseId))
    (hclaimed : ∀ p ∈ suite.cases.zip rows, p.2.supported = true → p.1.capability ∈ claimed)
    (hcorrect : ∀ row ∈ rows, row.correct = true → row.supported = true) {blank : Str}
    (hblank : skip blank = []) :
    parsePayload b (printPayload version claimed rows ++ blank) suite.cases =
      .ok { version := (joined version).take 64, capabilities := claimsOf b claimed,
            rows := List.zipWith reported suite.cases rows } := by
  obtain ⟨parsed, hparsed, hversion, hclaims, hcases⟩ :=
    parse_printPayload version claimed hids hblank
  have hrowIds : Report.rowIds (rows.map fun row => .obj row.members) =
      suite.cases.map (·.caseId) := by
    rw [← hids, Report.rowIds, List.filterMap_map]
    exact List.filterMap_eq_map_iff_forall_eq_some.2 fun row _ => rfl
  have hstrings : ∀ row ∈ rows.map (fun row => Json.obj row.members),
      ∃ id, row.subscript "case_id" = .ok (.str id) :=
    List.forall_mem_map.2 fun row _ => ⟨row.caseId, rfl⟩
  -- the rows are looked up by id, so each is found where its case asks for it
  obtain ⟨table, htable, hforeign⟩ := rowTable_of_ids hstrings
  have hcovers := coversSuite_of_ids htable hforeign hrowIds
  have hread : suite.cases.mapM (readRow table (claimsOf b claimed)) =
      .ok (List.zipWith reported suite.cases rows) := by
    have hlength := congrArg List.length hids
    rw [List.length_map, List.length_map] at hlength
    refine mapM_zipWith hlength.symm fun p hp => ?_
    obtain ⟨hcase, hrow⟩ := List.of_mem_zip hp
    have hid := eq_of_mem_zip hids.symm p hp
    refine readRow_of_mem ?_ (fun hsupported => ?_) (hcorrect p.2 hrow)
    · -- the row is the only one with its id
      rw [Report.get?_rowTable htable]
      have hmem : Json.obj p.2.members ∈
          Report.rowsOf p.1.caseId (rows.map fun row => .obj row.members) := by
        rw [Report.rowsOf, List.mem_filter]
        refine ⟨List.mem_map_of_mem hrow, decide_eq_true ?_⟩
        rw [hid]
        rfl
      obtain ⟨only, honly⟩ := Report.rowsOf_eq_singleton (hrowIds ▸ suite.distinct)
        (hrowIds ▸ List.mem_map_of_mem hcase)
      rw [honly, List.mem_singleton] at hmem
      rw [honly, hmem]
      rfl
    · exact mem_claimsOf_iff.2 ⟨hclaimed p hp hsupported, suite.known p.1 hcase⟩
  unfold parsePayload
  simp only [hparsed, hversion, hclaims, hcases, Bind.bind, Except.bind, Json.items, Json.iter, strs,
    htable, hcovers, Bool.not_true, Bool.false_eq_true, if_false]
  unfold claimsOf at hread
  rw [hread]
  rfl

/-- A row that does not go beyond the claims. -/
structure Honest (claimed : List Str) (case : Requested) (row : DriverRow) : Prop where
  sameId : row.caseId = case.caseId
  claimed : row.supported = true → case.capability ∈ claimed
  supported : row.correct = true → row.supported = true

/-- **A system is reported with what its driver has printed**, under the claims that the harness
    knows: it is scored, and its rows are those of the driver, one for each case and in order. -/
theorem executeExternal_printPayload
    (h : List.Forall₂ (Honest claimed) (suite.cases.map (·.requested)) rows) {blank : Str}
    (hblank : skip blank = []) (version system commandVariable : Str) :
    ∃ run, executeExternal b system commandVariable suite.cases
        (.printed (printPayload version claimed rows ++ blank)) = .ok (.executed system run) ∧
      Scored suite run ∧ run.version = (joined version).take 64 ∧
      (∀ capability, capability ∈ run.capabilities ↔
        capability ∈ claimed ∧ capability ∈ b.capabilities) ∧
      run.rows = List.zipWith reported suite.cases rows := by
  have hids : rows.map (·.caseId) = suite.cases.map (·.caseId) := by
    rw [map_eq_map_of_forall₂ h fun _ _ hrow => hrow.sameId, List.map_map]
    rfl
  rw [List.forall₂_map_left_iff] at h
  have hparse : parsePayload b (printPayload version claimed rows ++ blank) suite.cases = .ok _ :=
    parsePayload_printPayload hids (fun p hp => (List.forall₂_zip h hp).claimed)
      (forall_mem_of_forall₂ h fun _ _ _ hrow => hrow.supported) hblank
  obtain ⟨hcredited, hknown, -⟩ := parsePayload_cases hparse
  obtain ⟨run, hrun, hversion, hrows, hcapabilities, hscored⟩ :=
    scored_finish hcredited hknown system ((joined version).take 64)
  refine ⟨run, ?_, hscored, hversion, fun capability => ?_, hrows⟩
  · rw [executeExternal, hparse]
    exact hrun
  · rw [hcapabilities, Report.mem_sorted]
    exact mem_claimsOf_iff

end Payload

/-!
## An adapter that is asked case by case

The driver as a program over a world. The law for one case is shown for the body of the loop and
carried over the suite, in whatever way the world answers.
-/

/-- `run_case` of an adapter: it is called with a case id, and what it raises is written to
    stderr. -/
@[reducible] def probe : Interface where
  Call := Str
  Answer := fun _ => Bool
  Error := Str
  Note := Empty

/-- One pass of the loop of `run`: only a case whose capability is claimed is asked for. -/
def probeCase (claimed : List Str) (case : Requested) : Prog probe DriverRow :=
  if case.capability ∈ claimed then
    (perform (I := probe) case.caseId >>= fun correct =>
      pure { caseId := case.caseId, supported := true, correct := correct }).tryCatch
        fun _ => pure { caseId := case.caseId, supported := true }
  else pure { caseId := case.caseId }

/-- `run`, on the decoded request. -/
def runAdapter (claimed : List Str) (requested : List Requested) : Prog probe (List DriverRow) :=
  requested.mapM (probeCase claimed)

section Adapter

variable {σ : Type} {b : Benchmark} {claimed : List Str}

/-- What becomes of a case: it is not asked for, or it is, once, and correct if that is answered
    with true. -/
structure ProbeDiscipline (claimed : List Str) (case : Requested) (row : DriverRow)
    (trace : List (Event probe)) : Prop where
  sameId : row.caseId = case.caseId
  unclaimed : case.capability ∉ claimed →
    row.supported = false ∧ row.correct = false ∧ trace = []
  asked : case.capability ∈ claimed → row.supported = true ∧ ∃ answer : Except Str Bool,
    trace = [.called case.caseId answer] ∧ (row.correct = true ↔ answer = .ok true)

/-- Whatever the adapter does, a row comes of the case: what it raises is caught. -/
theorem run_probeCase (claimed : List Str) (w : World probe σ) (case : Requested) (s : σ) :
    ∃ row, ((probeCase claimed case).run w s).result = .ok row ∧
      ProbeDiscipline claimed case row ((probeCase claimed case).run w s).trace := by
  by_cases hmem : case.capability ∈ claimed
  · rw [probeCase, if_pos hmem, run_perform_tryCatch]
    refine ⟨_, rfl, ?_⟩
    cases (w s case.caseId).1 with
    | ok correct =>
      refine ⟨rfl, absurd hmem, fun _ => ⟨rfl, .ok correct, rfl, ?_⟩⟩
      show correct = true ↔ _
      rw [Except.ok.injEq]
    | error e =>
      refine ⟨rfl, absurd hmem, fun _ => ⟨rfl, .error e, rfl, ?_⟩⟩
      show false = true ↔ _
      constructor
      · intro h
        cases h
      · intro h
        cases h
  · rw [probeCase, if_neg hmem, run_pure]
    exact ⟨_, rfl, rfl, fun _ => ⟨rfl, rfl, rfl⟩, fun h => absurd h hmem⟩

theorem ProbeDiscipline.honest {case : Requested} {row : DriverRow} {trace : List (Event probe)}
    (h : ProbeDiscipline claimed case row trace) : Honest claimed case row := by
  by_cases hmem : case.capability ∈ claimed
  · exact ⟨h.sameId, fun _ => hmem, fun _ => (h.asked hmem).1⟩
  · obtain ⟨hsupported, hcorrect, -⟩ := h.unclaimed hmem
    refine ⟨h.sameId, fun hrow => ?_, fun hrow => ?_⟩
    · rw [hsupported] at hrow
      cases hrow
    · rw [hcorrect] at hrow
      cases hrow

/-- **Whatever an adapter answers and raises, its system is scored**, and under a gate there
    counts only what it was asked for and did not answer with true. It is asked once for each case
    whose capability is claimed, in the order of the suite, and its rows go into the report as
    they are. -/
theorem capability_reported [Runtime] [Numerics] (suite : Suite b) (w : World probe σ) (s : σ)
    (version : Str) (claimed : List Str) (system commandVariable : Str) :
    ∃ requested rows run, readRequest? (request b suite.cases) = some requested ∧
      ((runAdapter claimed requested).run w s).result = .ok rows ∧
      EachPass (ProbeDiscipline claimed) requested rows
        ((runAdapter claimed requested).run w s).trace ∧
      executeExternal b system commandVariable suite.cases
        (.printed (printPayload version claimed rows)) = .ok (.executed system run) ∧
      Scored suite run ∧
      (∀ capability, capability ∈ run.capabilities ↔
        capability ∈ claimed ∧ capability ∈ b.capabilities) ∧
      run.rows = List.zipWith reported suite.cases rows := by
  obtain ⟨rows, hrows, hpasses⟩ :=
    eachPass_mapM (run_probeCase claimed w) (suite.cases.map (·.requested)) s
  have hhonest := hpasses.forall₂.imp fun _ _ ⟨_, hrow⟩ => hrow.honest
  obtain ⟨run, hrun, hscored, -, hclaims, hsame⟩ :=
    executeExternal_printPayload hhonest (show skip [] = [] from rfl) version system commandVariable
  rw [List.append_nil] at hrun
  exact ⟨_, rows, run, readRequest?_request suite, hrows, hpasses, hrun, hscored, hclaims, hsame⟩

end Adapter

end AdversarialCognition.Comparison
