import AdversarialCognition.Report.Adapters
import AdversarialCognition.Lib.Forall2
import AdversarialCognition.Lib.Sha256

/-!
# Which payloads cover the suite

`rowTable_spec` says what the dictionary of a payload's rows is: for each id, the last row with
it. So the comparison with the suite sees which ids there are and not how often, and
`coverageLaw_iff` says that this is all it misses.

## Well-formed payloads

The law is about payloads that can be read at all. `PayloadWellFormed` asks for this of the header
and of each row by itself, in terms of what subscripting and iterating give, and says nothing of
the ids: a payload with a row too many, or of another case, is well formed. Everything the law
denies of a payload is then a matter of its coverage.

A suite has an id once, as the loader of the suite makes sure. Over such a suite, that the rows
cover it is that they have the same ids and repeat none (`covers_iff_sameIds`), and the source
checks the first half.

A refused payload is a `ValueError`, and in the report an error of its system, in the words of the
exception.
-/

namespace AdversarialCognition.Report

open Py Py.Str

/-- The case id of a row, where it has one that is a string. -/
def rowId? (row : Json) : Option Str :=
  match row with
  | .obj items =>
      match Json.item? items "case_id" with
      | some (.str id) => some id
      | _ => none
  | _ => none

/-- The case ids of the rows, in order. -/
def rowIds (rows : List Json) : List Str := rows.filterMap rowId?

/-- The rows with an id, in order. -/
def rowsOf (id : Str) (rows : List Json) : List Json := rows.filter fun row => rowId? row = some id

/-- The case ids of the suite, in order. -/
def suiteIds (suite : List SuiteCase) : List Str := suite.map (·.caseId)

theorem rowsOf_cons (id : Str) (row : Json) (rows : List Json) :
    rowsOf id (row :: rows) =
      if rowId? row = some id then row :: rowsOf id rows else rowsOf id rows := by
  simp [rowsOf, List.filter_cons]

theorem mem_rowIds_iff {id : Str} {rows : List Json} : id ∈ rowIds rows ↔ rowsOf id rows ≠ [] := by
  rw [rowIds, List.mem_filterMap, rowsOf, ne_eq, List.filter_eq_nil_iff]
  simp

/-- Where no id is repeated, a row is the only one with its id. -/
theorem rowsOf_eq_singleton {id : Str} {rows : List Json} (hnodup : (rowIds rows).Nodup)
    (hmem : id ∈ rowIds rows) : ∃ row, rowsOf id rows = [row] := by
  induction rows with
  | nil => cases hmem
  | cons row rows ih =>
    rw [rowsOf_cons]
    cases hid : rowId? row with
    | none =>
      rw [rowIds, List.filterMap_cons_none hid] at hnodup hmem
      rw [if_neg (by simp)]
      exact ih hnodup hmem
    | some first =>
      rw [rowIds, List.filterMap_cons_some hid] at hnodup hmem
      obtain ⟨hfirst, hrest⟩ := List.nodup_cons.1 hnodup
      by_cases heq : first = id
      · have hnone : rowsOf id rows = [] := by
          by_contra hne
          exact hfirst (heq ▸ mem_rowIds_iff.2 hne)
        rw [if_pos (congrArg some heq), hnone]
        exact ⟨row, rfl⟩
      · rw [if_neg (fun h => heq (Option.some.inj h))]
        exact ih hrest ((List.mem_cons.1 hmem).resolve_left (Ne.symm heq))

section Payloads

variable [Runtime] [Numerics]

/-- A row that can be read, whatever case it is of. -/
structure RowWellFormed (row : Json) : Prop where
  id : ∃ id, row.subscript "case_id" = .ok (.str id)
  correct : ∃ value, row.subscript "correct" = .ok value
  allowed : ∃ value, row.subscript "allowed" = .ok value
  returnedIds : ∃ value ids, row.getOr "returned_ids" (.list []) = .ok value ∧
    value.items = .ok ids
  latencyUs : ∃ value text, row.getOr "latency_us" (.float "0.0") = .ok value ∧
    value.toFloat = .ok text

/-- A payload that can be read up to its rows, each of which can. -/
structure PayloadWellFormed (payload : Str) (benchmarkVersion : ℕ) (rows : List Json) : Prop where
  header : ∃ parsed found, Json.parse payload = .ok parsed ∧
    parseHeader parsed benchmarkVersion = .ok found ∧ parsed.subscript "cases" = .ok (.list rows)
  rows : ∀ row ∈ rows, RowWellFormed row

/-!
## The table of rows

The rows are put into a dictionary by their ids, so a row that repeats an id replaces the one
before. What is then compared with the suite are two sets of ids.
-/

section Table

variable {row : Json} {rows : List Json} {table : RowTable} {suite : List SuiteCase} {id : Str}

omit [Numerics] in
theorem rowId?_of_subscript (h : row.subscript "case_id" = .ok (.str id)) :
    rowId? row = some id := by
  cases row with
  | obj items =>
    unfold Json.subscript at h
    unfold rowId?
    cases hitem : Json.item? items "case_id" with
    | none => simp [hitem] at h
    | some found =>
      simp only [hitem, Except.ok.injEq] at h
      subst h
      simp only [hitem]
  | _ => simp [Json.subscript] at h

theorem foldlM_insert (h : ∀ row ∈ rows, RowWellFormed row) (table : RowTable) :
    ∃ final, rows.foldlM RowTable.insert table = .ok final ∧ final.foreign = table.foreign ∧
      ∀ id, final.byId.get? id = (rowsOf id rows).getLast?.or (table.byId.get? id) := by
  induction rows generalizing table with
  | nil => exact ⟨table, rfl, rfl, fun id => rfl⟩
  | cons row rows ih =>
    obtain ⟨id, hid⟩ := (h row List.mem_cons_self).id
    have hinsert : table.insert row = .ok { table with byId := table.byId.set id row } := by
      rw [RowTable.insert, hid]
      rfl
    obtain ⟨final, hfinal, hforeign, hget⟩ :=
      ih (fun row hmem => h row (List.mem_cons_of_mem _ hmem))
        { table with byId := table.byId.set id row }
    refine ⟨final, ?_, hforeign, fun other => ?_⟩
    · rw [List.foldlM_cons, hinsert]
      exact hfinal
    · rw [hget, Dict.get?_set, rowsOf_cons, rowId?_of_subscript hid]
      by_cases hother : id = other
      · rw [if_pos (congrArg some hother), List.getLast?_cons, if_pos hother.symm]
        cases (rowsOf other rows).getLast? <;> rfl
      · rw [if_neg (fun heq => hother (Option.some.inj heq)), if_neg (Ne.symm hother)]

/-- **The table has the last row of every id**, and no other. -/
theorem rowTable_spec (h : ∀ row ∈ rows, RowWellFormed row) :
    ∃ table, rowTable rows = .ok table ∧ table.foreign = false ∧
      ∀ id, table.byId.get? id = (rowsOf id rows).getLast? := by
  obtain ⟨table, htable, hforeign, hget⟩ := foldlM_insert h ⟨.empty, false⟩
  refine ⟨table, htable, hforeign, fun id => ?_⟩
  rw [hget, Dict.get?_empty, Option.or_none]

/-- The rows and the suite have the same ids. How often a row repeats one does not matter. -/
def SameIds (rows : List Json) (suite : List SuiteCase) : Prop :=
  ∀ id, id ∈ rowIds rows ↔ id ∈ suiteIds suite

omit [Runtime] [Numerics] in
theorem covers_iff (hforeign : table.foreign = false)
    (hget : ∀ id, table.byId.get? id = (rowsOf id rows).getLast?) :
    table.covers suite = true ↔ SameIds rows suite := by
  have hkey : ∀ id, (∃ row, (id, row) ∈ table.byId.items) ↔ id ∈ rowIds rows := by
    intro id
    rw [mem_rowIds_iff, ne_eq, ← List.getLast?_eq_none_iff, ← hget]
    simp only [Dict.mem_items_iff]
    exact Option.ne_none_iff_exists'.symm
  have hpresent : ∀ id, (table.byId.get? id).isSome ↔ id ∈ rowIds rows := by
    intro id
    rw [← hkey, Option.isSome_iff_exists]
    simp only [Dict.mem_items_iff]
  simp only [RowTable.covers, hforeign, Bool.not_false, Bool.true_and, Bool.and_eq_true,
    List.all_eq_true, List.any_eq_true, beq_iff_eq, hpresent, Prod.forall]
  unfold SameIds suiteIds
  simp only [List.mem_map]
  constructor
  · intro h id
    refine ⟨fun hmem => ?_, fun hmem => ?_⟩
    · obtain ⟨row, hrow⟩ := (hkey id).2 hmem
      exact h.1 id row hrow
    · obtain ⟨case, hcase, hid⟩ := hmem
      exact hid ▸ h.2 case hcase
  · intro h
    refine ⟨fun id row hrow => (h id).1 ((hkey id).1 ⟨row, hrow⟩), fun case hcase => ?_⟩
    exact (h case.caseId).2 ⟨case, hcase, rfl⟩

end Table

/-!
## The outcomes

Once the sets agree every case is read from the last of its rows. If the rows are well formed
nothing else can keep the payload from being read.
-/

section Outcomes

variable {row : Json} {rows : List Json} {suite : List SuiteCase} {payload : Str}
  {benchmarkVersion : ℕ}

/-- A well-formed row is read without an exception, for any case. -/
theorem RowWellFormed.outcomeOf (h : RowWellFormed row) (case : SuiteCase) :
    ∃ outcome, outcomeOf case row = .ok outcome := by
  obtain ⟨correct, hcorrect⟩ := h.correct
  obtain ⟨allowed, hallowed⟩ := h.allowed
  obtain ⟨value, ids, hvalue, hids⟩ := h.returnedIds
  obtain ⟨number, latency, hnumber, hlatency⟩ := h.latencyUs
  obtain ⟨items, hitems⟩ : ∃ items, row = .obj items := by
    cases row with
    | obj items => exact ⟨items, rfl⟩
    | _ => simp [Json.subscript] at hcorrect
  have hget : ∀ key default, ∃ found, row.getOr key default = .ok found := by
    intro key default
    rw [hitems]
    exact ⟨_, rfl⟩
  obtain ⟨receipt, hreceipt⟩ := hget "receipt" (.str [])
  obtain ⟨supported, hsupported⟩ := hget "supported" (.bool true)
  unfold Report.outcomeOf
  rw [hcorrect, hallowed, hvalue, hreceipt, hnumber, hsupported]
  simp only [bind, Except.bind, hids, hlatency]
  exact ⟨_, rfl⟩

/-- The outcome is read from the last row with the id of its case. -/
def ReadFromLast (rows : List Json) (case : SuiteCase) (outcome : CaseOutcome) : Prop :=
  ∃ row, (rowsOf case.caseId rows).getLast? = some row ∧ outcomeOf case row = .ok outcome

/-- The outcome is read from the only row with the id of its case. -/
def ReadFromOnly (rows : List Json) (case : SuiteCase) (outcome : CaseOutcome) : Prop :=
  ∃ row, rowsOf case.caseId rows = [row] ∧ outcomeOf case row = .ok outcome

/-- What a payload is refused with. -/
def coverageError : Raised :=
  ⟨.valueError, "external adapter did not report every case exactly once"⟩

/-- With the ids of the suite, each case is read from the last of its rows. -/
theorem parseRows_of_sameIds {parsed : Json} (hcases : parsed.subscript "cases" = .ok (.list rows))
    (hrows : ∀ row ∈ rows, RowWellFormed row) (h : SameIds rows suite) :
    ∃ outcomes, parseRows parsed suite = .ok outcomes ∧
      List.Forall₂ (ReadFromLast rows) suite outcomes := by
  obtain ⟨table, htable, hforeign, hget⟩ := rowTable_spec hrows
  have hcovers : table.covers suite = true := (covers_iff hforeign hget).2 h
  have hread : ∀ case ∈ suite, ∃ outcome, table.outcome case = .ok outcome ∧
      ReadFromLast rows case outcome := by
    intro case hcase
    have hmem : case.caseId ∈ rowIds rows := (h case.caseId).2 (List.mem_map_of_mem hcase)
    obtain ⟨row, hrow⟩ := Option.ne_none_iff_exists'.1
      (mt List.getLast?_eq_none_iff.1 (mem_rowIds_iff.1 hmem))
    have hwell := hrows row (List.mem_of_mem_filter (List.mem_of_getLast? hrow))
    obtain ⟨outcome, houtcome⟩ := hwell.outcomeOf case
    refine ⟨outcome, ?_, row, hrow, houtcome⟩
    rw [RowTable.outcome, hget, hrow]
    exact houtcome
  obtain ⟨outcomes, houtcomes, hall⟩ := mapM_forall₂ hread
  refine ⟨outcomes, ?_, hall⟩
  simp only [parseRows, hcases, bind, Except.bind, Json.items, Json.iter, htable, hcovers,
    Bool.not_true, Bool.false_eq_true, if_false]
  exact houtcomes

theorem parseRows_of_not_sameIds {parsed : Json}
    (hcases : parsed.subscript "cases" = .ok (.list rows))
    (hrows : ∀ row ∈ rows, RowWellFormed row) (h : ¬ SameIds rows suite) :
    parseRows parsed suite = .error coverageError := by
  obtain ⟨table, htable, hforeign, hget⟩ := rowTable_spec hrows
  have hcovers : table.covers suite = false :=
    Bool.eq_false_of_not_eq_true (mt (covers_iff hforeign hget).1 h)
  simp only [parseRows, hcases, bind, Except.bind, Json.items, Json.iter, htable, hcovers,
    Bool.not_false, if_true]
  rfl

/-- A payload is read if its rows have the ids of the suite, and else refused for that. -/
theorem parse_of_wellFormed (h : PayloadWellFormed payload benchmarkVersion rows) :
    (SameIds rows suite → ∃ parsed,
      parseExternalOutcomes payload suite benchmarkVersion = .ok parsed ∧
        List.Forall₂ (ReadFromLast rows) suite parsed.outcomes) ∧
      (¬ SameIds rows suite →
        parseExternalOutcomes payload suite benchmarkVersion = .error coverageError) := by
  obtain ⟨parsed, header, hparsed, hheader, hcases⟩ := h.header
  refine ⟨fun hsame => ?_, fun hsame => ?_⟩
  · obtain ⟨outcomes, houtcomes, hall⟩ := parseRows_of_sameIds hcases h.rows hsame
    simp only [parseExternalOutcomes, hparsed, bind, Except.bind, hheader, houtcomes]
    exact ⟨_, rfl, hall⟩
  · have hrefused := parseRows_of_not_sameIds hcases h.rows hsame
    simp only [parseExternalOutcomes, hparsed, bind, Except.bind, hheader, hrefused]

theorem accepted_of_header {parsed : Json} {version interface : Str} {harness : Option HarnessBlock}
    (hparsed : Json.parse payload = .ok parsed)
    (hheader : parseHeader parsed benchmarkVersion = .ok (version, interface, harness))
    (hcases : parsed.subscript "cases" = .ok (.list rows)) (hrows : ∀ row ∈ rows, RowWellFormed row)
    (hsame : SameIds rows suite) : ∃ found,
      parseExternalOutcomes payload suite benchmarkVersion = .ok found ∧
        found.version = version ∧ found.interface = interface ∧ found.harness = harness := by
  obtain ⟨outcomes, houtcomes, -⟩ := parseRows_of_sameIds hcases hrows hsame
  simp only [parseExternalOutcomes, hparsed, bind, Except.bind, hheader, houtcomes]
  exact ⟨_, rfl, rfl, rfl, rfl⟩

end Outcomes

/-!
## Every case exactly once

The law compares not sets but lists, up to the order. The two differ exactly in rows that repeat
an id.
-/

/-- The rows cover the suite: their ids are its ids, each as often. -/
def Covers (rows : List Json) (suite : List SuiteCase) : Prop :=
  (rowIds rows).Perm (suiteIds suite)

/-- What becomes of a payload: it is read if its rows cover the suite, each case from its only
    row, and else it is a `ValueError` and the system is reported with an error. -/
structure CoverageLaw (payload : Str) (suite : List SuiteCase) (benchmarkVersion : ℕ)
    (rows : List Json) : Prop where
  /-- The payload is accepted exactly if it reports every case once. -/
  accepted : (∃ parsed, parseExternalOutcomes payload suite benchmarkVersion = .ok parsed) ↔
    Covers rows suite
  /-- Each outcome is then read from the only row of its case. -/
  outcomes : ∀ parsed, parseExternalOutcomes payload suite benchmarkVersion = .ok parsed →
    List.Forall₂ (ReadFromOnly rows) suite parsed.outcomes
  /-- Else a `ValueError` is raised, and the system has its text for an error. -/
  refused : ¬ Covers rows suite → ∃ e,
    parseExternalOutcomes payload suite benchmarkVersion = .error e ∧ e.IsValueError ∧
      ∀ system commandVariable, executeExternal system commandVariable suite benchmarkVersion
        (.printed payload) = .ok (errorReport system e.text)

section Law

variable {rows : List Json} {suite : List SuiteCase} {payload : Str} {benchmarkVersion : ℕ}

omit [Runtime] [Numerics] in
theorem covers_iff_sameIds (hsuite : (suiteIds suite).Nodup) :
    Covers rows suite ↔ (rowIds rows).Nodup ∧ SameIds rows suite := by
  constructor
  · intro h
    exact ⟨h.nodup_iff.2 hsuite, fun id => h.mem_iff⟩
  · intro h
    exact (List.perm_ext_iff_of_nodup h.1 hsuite).2 h.2

/-- Where no id is repeated, the last row of a case is its only one. -/
theorem readFromOnly_of_nodup (hnodup : (rowIds rows).Nodup) (hsame : SameIds rows suite)
    {outcomes : List CaseOutcome} (h : List.Forall₂ (ReadFromLast rows) suite outcomes) :
    List.Forall₂ (ReadFromOnly rows) suite outcomes := by
  rw [List.forall₂_iff_get] at h ⊢
  refine ⟨h.1, fun i hi hj => ?_⟩
  obtain ⟨row, hlast, hrow⟩ := h.2 i hi hj
  have hmem : (suite.get ⟨i, hi⟩).caseId ∈ rowIds rows :=
    (hsame _).2 (List.mem_map_of_mem (List.get_mem suite ⟨i, hi⟩))
  obtain ⟨only, honly⟩ := rowsOf_eq_singleton hnodup hmem
  rw [honly, List.getLast?_singleton, Option.some.injEq] at hlast
  exact ⟨row, by rw [honly, hlast], hrow⟩

/-- **A payload is treated as it should be if and only if its rows repeat no id, or do not have
    the ids of the suite anyway.** The rows are compared with the suite as they are found in a
    dictionary, in which the last row of an id takes the place of the others. -/
theorem coverageLaw_iff (hsuite : (suiteIds suite).Nodup)
    (h : PayloadWellFormed payload benchmarkVersion rows) :
    CoverageLaw payload suite benchmarkVersion rows ↔
      ((rowIds rows).Nodup ∨ ¬ SameIds rows suite) := by
  obtain ⟨hread, hrefuse⟩ : (SameIds rows suite → _) ∧ (¬ SameIds rows suite → _) :=
    parse_of_wellFormed h
  constructor
  · intro hlaw
    -- if the ids differ, the law asks for a refusal, which is what there is; if they are the
    -- same, the payload is read, and the law asks for one row each
    by_cases hsame : SameIds rows suite
    · obtain ⟨parsed, hparsed, -⟩ := hread hsame
      exact .inl ((covers_iff_sameIds hsuite).1 (hlaw.accepted.1 ⟨parsed, hparsed⟩)).1
    · exact .inr hsame
  · intro hcond
    have hcovers : Covers rows suite ↔ SameIds rows suite := by
      rw [covers_iff_sameIds hsuite]
      refine ⟨fun hboth => hboth.2, fun hsame => ⟨?_, hsame⟩⟩
      exact hcond.resolve_right (fun hnot => hnot hsame)
    refine ⟨?_, fun parsed hparsed => ?_, fun hnot => ?_⟩
    · rw [hcovers]
      refine ⟨fun hok => ?_, fun hsame => ?_⟩
      · by_contra hsame
        obtain ⟨parsed, hparsed⟩ := hok
        rw [hrefuse hsame] at hparsed
        cases hparsed
      · obtain ⟨parsed, hparsed, -⟩ := hread hsame
        exact ⟨parsed, hparsed⟩
    · have hsame : SameIds rows suite := by
        by_contra hsame
        rw [hrefuse hsame] at hparsed
        cases hparsed
      obtain ⟨found, hfound, hall⟩ := hread hsame
      rw [hfound, Except.ok.injEq] at hparsed
      have hnodup := hcond.resolve_right (fun hnot => hnot hsame)
      exact readFromOnly_of_nodup hnodup hsame (hparsed ▸ hall)
    · have herror := hrefuse (mt hcovers.2 hnot)
      refine ⟨coverageError, herror, .inl rfl, fun system commandVariable => ?_⟩
      rw [executeExternal, herror]

end Law

/-!
## A row twice

One case with two rows of opposite results, and a payload whose rows come in another order than
the suite.
-/

section Printed

/-- A payload of a memory store. -/
def directPayload (rows : List Json) : Json :=
  .obj [("interface", .str "direct-api"), ("cases", .list rows)]

/-- A row with nothing but what it must have. -/
def plainRow (id : String) (correct : Bool) : Json :=
  .obj [("case_id", .str id), ("correct", .bool correct), ("allowed", .bool true)]

/-- A case of the suite. -/
def suiteCase (id : String) : SuiteCase :=
  { caseId := id, category := "retrieval", description := "a case" }

theorem rowWellFormed_plainRow (id : String) (correct : Bool) :
    RowWellFormed (plainRow id correct) where
  id := ⟨id, rfl⟩
  correct := ⟨.bool correct, rfl⟩
  allowed := ⟨.bool true, rfl⟩
  returnedIds := ⟨.list [], [], rfl, rfl⟩
  latencyUs := ⟨.float "0.0", lit "0.0", rfl, rfl⟩

omit [Runtime] [Numerics] in
theorem printable_plainRow (id : String) (correct : Bool) : (plainRow id correct).Printable := by
  simp [plainRow, Json.Printable, Json.PrintableMembers, encodable_lit]

omit [Runtime] [Numerics] in
theorem printable_directPayload {rows : List Json} (h : Json.PrintableItems rows) :
    (directPayload rows).Printable := by
  simp [directPayload, Json.Printable, Json.PrintableMembers, encodable_lit, h]

theorem payloadWellFormed_direct {rows : List Json} (hprint : Json.PrintableItems rows)
    (hdepth : Json.depthItems rows ≤ 1) (hrows : ∀ row ∈ rows, RowWellFormed row) :
    PayloadWellFormed (directPayload rows).dumps 2 rows := by
  have hroom : (directPayload rows).depth ≤ Decoder.room := by
    have heq : (directPayload rows).depth = Json.depthItems rows + 2 := by
      simp [directPayload, Json.depth, Json.depthMembers]
    have hample := Decoder.ample
    omega
  exact ⟨⟨_, _, Json.parse_dumps (printable_directPayload hprint) hroom, rfl, rfl⟩, hrows⟩

end Printed

end Payloads

section Examples

attribute [local instance] cpython Numerics.verbatim

/-- Two rows of one case, with opposite results. -/
def contradicting : List Json := [plainRow "a" false, plainRow "a" true]

theorem payloadWellFormed_contradicting :
    PayloadWellFormed (directPayload contradicting).dumps 2 contradicting := by
  apply payloadWellFormed_direct
  · exact ⟨printable_plainRow _ _, printable_plainRow _ _, trivial⟩
  · exact le_rfl
  · intro row hmem
    simp only [contradicting, List.mem_cons, List.not_mem_nil, or_false] at hmem
    rcases hmem with rfl | rfl
    · exact rowWellFormed_plainRow _ _
    · exact rowWellFormed_plainRow _ _

/-- The payload is accepted, though its two rows are about one case and contradict each other. The
    second is the one that is read. -/
theorem contradicting_accepted :
    (∃ parsed, parseExternalOutcomes (directPayload contradicting).dumps [suiteCase "a"] 2 =
      .ok parsed) ∧ ¬ Covers contradicting [suiteCase "a"] ∧
      ¬ CoverageLaw (directPayload contradicting).dumps [suiteCase "a"] 2 contradicting := by
  have hids : rowIds contradicting = [lit "a", lit "a"] := rfl
  have hsame : SameIds contradicting [suiteCase "a"] := by
    intro id
    rw [hids]
    simp [suiteIds, suiteCase]
  have hcovers : ¬ Covers contradicting [suiteCase "a"] := by
    intro h
    have hlength := h.length_eq
    rw [hids] at hlength
    exact absurd hlength (by simp [suiteIds])
  obtain ⟨parsed, hparsed, -⟩ := (parse_of_wellFormed payloadWellFormed_contradicting).1 hsame
  exact ⟨⟨parsed, hparsed⟩, hcovers, fun hlaw => hcovers (hlaw.accepted.1 ⟨parsed, hparsed⟩)⟩

/-- A payload with a row for each of its cases is treated as it should be, in whatever order they
    come. -/
theorem coverageLaw_swapped :
    CoverageLaw (directPayload [plainRow "b" false, plainRow "a" true]).dumps
      [suiteCase "a", suiteCase "b"] 2 [plainRow "b" false, plainRow "a" true] := by
  have hprint : Json.PrintableItems [plainRow "b" false, plainRow "a" true] :=
    ⟨printable_plainRow _ _, printable_plainRow _ _, trivial⟩
  have hrows : ∀ row ∈ [plainRow "b" false, plainRow "a" true], RowWellFormed row :=
    List.forall_mem_cons.2 ⟨rowWellFormed_plainRow _ _,
      List.forall_mem_singleton.2 (rowWellFormed_plainRow _ _)⟩
  have hsuite : (suiteIds [suiteCase "a", suiteCase "b"]).Nodup := by decide
  have hids : (rowIds [plainRow "b" false, plainRow "a" true]).Nodup := by
    have heq : rowIds [plainRow "b" false, plainRow "a" true] = [lit "b", lit "a"] := rfl
    rw [heq]
    decide
  exact (coverageLaw_iff hsuite (payloadWellFormed_direct hprint le_rfl hrows)).2 (.inl hids)

end Examples

end AdversarialCognition.Report
