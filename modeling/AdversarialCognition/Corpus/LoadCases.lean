import AdversarialCognition.Lib.Extension
import AdversarialCognition.Lib.Forall2
import AdversarialCognition.Lib.IsoDate
import AdversarialCognition.Lib.Sha256
import AdversarialCognition.Lib.TextFile
import AdversarialCognition.Lib.Unescaped

/-!
# Loading a corpus

`corpus.py`: a pinned source and the cases of a JSONL file. The file is taken apart at every line
break that `splitlines` knows, also within the strings of a line, and `tuple` makes a tuple of a
string or a dictionary too. So a file is loaded as its format says exactly if none of this comes
up in a text that is otherwise in the format (`law_iff`).

## Two readings of one text

The format of a JSONL file is one object on each line, and lines end with a newline. `Format
array?` over `splitOn newline` is that. What the loader accepts is `Format iterable?` over
`splitlines`: more line breaks, and more values that make a tuple. `loadCases_eq_ok_iff` has the
loader down to the second, and from there on the two are compared as properties of a text.

They agree if the lines that are not blank are unbroken and the expected ids are arrays. That this
is needed takes an argument: a line break that only Python knows is no whitespace of JSON, so of a
line that is an object one way, the other way no piece can be one (`separated_of_formats`).

## What is raised

A bad line is a `ValueError`, whatever exception it was before. The exception that is not caught
is the one of a nesting past the decoder's room. The loader does not come to every line, as it
stops at the first that is bad, so the condition is about the lines behind rows of cases
(`Shallow`). What the file system raises before the text is there is not modelled.

## What is written

For the cases that a file can have, the file with one object a line is loaded back exactly if no
string in it has a line break that stands as it is. JSON escapes the control characters, and
leaves three line breaks of Unicode.
-/

namespace AdversarialCognition.Corpus

open Py Py.Str

/-- `MAX_CASES` -/
def maxCases : ℕ := 100000

/-- `MAX_ID` -/
def maxId : ℕ := 256

/-- `MAX_QUERY` -/
def maxQuery : ℕ := 16384

/-- Where a corpus is from: an address, an exact revision and the name of its schema. -/
structure SourcePin where
  name : Str
  url : Str
  revision : Str
  schema : Str

/-- `SHA1.fullmatch` -/
def isSha1 (s : Str) : Bool :=
  s.length = 40 && s.all fun c => Json.isDigit c || (0x61 ≤ c.val && c.val ≤ 0x66)

/-- `validate`, which is called before the file is read. -/
def SourcePin.validate (source : SourcePin) : Except Raised Unit :=
  if source.name.isEmpty || !(lit "https://").isPrefixOf source.url || !isSha1 source.revision then
    .error ⟨.valueError, "benchmark source must have an HTTPS URL and exact revision"⟩
  else if source.schema.isEmpty then
    .error ⟨.valueError, "benchmark source schema is required"⟩
  else .ok ()

/-- `EvaluationCase`. What is annotated as a string may be anything, until it is checked. -/
structure EvaluationCase where
  caseId : Str
  query : Json
  asOf : Date
  expectedIds : List Json
  abstain : Bool

/-- A string that is not empty and of bounded length. -/
def Named (limit : ℕ) (value : Json) : Prop := ∃ s, value = .str s ∧ s ≠ [] ∧ s.length ≤ limit

/-- What the loader of a normalized file makes sure of. -/
structure EvaluationCase.Strict (case : EvaluationCase) : Prop where
  caseId : case.caseId ≠ [] ∧ case.caseId.length ≤ maxId
  query : Named maxQuery case.query
  expectedIds : ∀ identifier ∈ case.expectedIds, Named maxId identifier

/-- Not `not isinstance(value, str) or not value or len(value) > limit`. -/
def named (limit : ℕ) : Json → Bool
  | .str s => !s.isEmpty && s.length ≤ limit
  | _ => false

theorem named_iff {limit : ℕ} {value : Json} : named limit value = true ↔ Named limit value := by
  unfold Named
  cases value with
  | str s => simp [named]
  | null | bool | int | float | list | obj => simp [named]

/-!
## One line

The body of the loop: what is read within the `try`, what the handler catches of what is raised
there, and the checks that follow.
-/

section Load

variable [Runtime] [Numerics]

/-- `date.fromisoformat(value)` -/
def dateOf : Json → Except Raised Date
  | .str s =>
      match Date.fromisoformat s with
      | some d => .ok d
      | none => .error ⟨.valueError, lit "Invalid isoformat string: " ++ s.repr⟩
  | _ => .error ⟨.typeError, "fromisoformat: argument must be str"⟩

/-- What is read of a line before it is checked. -/
structure Row where
  caseId : Json
  query : Json
  asOf : Date
  expectedIds : List Json
  abstain : Bool

/-- What may raise: the body of the `try`. A field that is missing raises, and so does a row that
    is no dictionary. -/
def readRow (line : Str) : Except Raised Row := do
  let row ← Json.parse line
  let caseId ← row.subscript "case_id"
  let query ← row.subscript "query"
  let asOf ← dateOf (← row.subscript "as_of")
  let expectedIds ← (← row.subscript "expected_ids").items
  let abstain ← row.getOr "abstain" (.bool false)
  return ⟨caseId, query, asOf, expectedIds, abstain.truthy⟩

/-- `except (KeyError, TypeError, ValueError, json.JSONDecodeError)` -/
def caught (error : Raised) : Bool :=
  error.exnClass = .keyError || error.exnClass = .typeError || error.exnClass = .valueError ||
    error.exnClass = .jsonDecodeError

/-- The case of a row, unless a check fails. Ids are compared with those of the cases before it. -/
def caseOf? (seen : List Str) (row : Row) : Option EvaluationCase :=
  match row.caseId with
  | .str caseId =>
      if caseId.isEmpty || maxId < caseId.length || caseId ∈ seen || !named maxQuery row.query ||
          row.expectedIds.any (fun identifier => !named maxId identifier) then none
      else some ⟨caseId, row.query, row.asOf, row.expectedIds, row.abstain⟩
  | _ => none

/-!
## The file

The loop over the lines. A bad one is reported with its number.
-/

/-- What a bad line is reported as. The lines are numbered as Python finds them, blank ones
    included. -/
def invalidAt (lineNumber : ℕ) : Raised :=
  ⟨.valueError, lit "invalid benchmark case at line " ++ ofNat lineNumber⟩

/-- The loop over the lines. What has been seen are the ids of the cases. -/
def loadLines (lineNumber : ℕ) (cases : List EvaluationCase) :
    List Str → Except Raised (List EvaluationCase)
  | [] =>
      if cases.isEmpty then .error ⟨.valueError, "benchmark corpus is empty"⟩ else .ok cases
  | line :: lines =>
      if !nonblank line then loadLines (lineNumber + 1) cases lines
      else
        match readRow line with
        | .error error => if caught error then .error (invalidAt lineNumber) else .error error
        | .ok row =>
            match caseOf? (cases.map (·.caseId)) row with
            | none => .error (invalidAt lineNumber)
            | some case =>
                if maxCases < (cases ++ [case]).length then
                  .error ⟨.valueError, "benchmark corpus exceeds its fixed case bound"⟩
                else loadLines (lineNumber + 1) (cases ++ [case]) lines

/-- `load_cases`, of the characters of the file. -/
def loadCases (file : Str) (source : SourcePin) : Except Raised (List EvaluationCase) := do
  source.validate
  loadLines 1 [] (splitlines (universalNewlines file))

/-!
## The format

What the loader should accept, said without it: lines that are JSON objects with the fields of a
case, blank lines aside, with no id twice, and as many cases as a corpus may have. Where lines end
and what stands for a list of ids are left open here, because the code and the format do not agree
on them.
-/

/-- `row["expected_ids"]` of a JSON array. -/
def array? : Json → Option (List Json)
  | .list items => some items
  | _ => none

/-- What `tuple` takes. -/
def iterable? (value : Json) : Option (List Json) := value.iter.toOption

/-- A line is a JSON object with the fields of a case, where `allowed` says what the expected ids
    may be. -/
structure IsRow (allowed : Json → Option (List Json)) (line : Str) (case : EvaluationCase) : Prop where
  strict : case.Strict
  fields : ∃ fields ids day, Json.loads line = .ok (.obj fields) ∧
    Json.item? fields "case_id" = some (.str case.caseId) ∧
    Json.item? fields "query" = some case.query ∧
    (Json.item? fields "as_of" = some (.str day) ∧ Date.fromisoformat day = some case.asOf) ∧
    (Json.item? fields "expected_ids" = some ids ∧ allowed ids = some case.expectedIds) ∧
    case.abstain = (Json.lookup fields "abstain" (.bool false)).truthy

/-- Lines of which those that are not blank are rows of cases. -/
structure Format (allowed : Json → Option (List Json)) (lines : List Str) (cases : List EvaluationCase) :
    Prop where
  /-- Each line that is not blank is a row of its case. -/
  rows : List.Forall₂ (IsRow allowed) (lines.filter nonblank) cases
  /-- No id occurs twice. -/
  nodup : (cases.map (·.caseId)).Nodup
  nonempty : cases ≠ []
  bound : cases.length ≤ maxCases

/-- **A file is loaded exactly if** its text, line by line, is in the format, and gives the cases
    that are there; and else a `ValueError` is raised. -/
def Law (file : Str) (source : SourcePin) : Prop :=
  (∀ cases, loadCases file source = .ok cases ↔
    Format array? ((universalNewlines file).splitOn newline) cases) ∧
    Raises Raised.IsValueError (loadCases file source)

/-!
## What a line gives

Each step of a line succeeds exactly if the line is of the format, and what raises is caught, with
the one exception of a line that nests deeper than the decoder has room for.
-/

omit [Numerics] in
/-- Only a dictionary is subscripted with a string. -/
theorem subscript_eq_ok_iff {value found : Json} {key : String} :
    value.subscript key = .ok found ↔
      ∃ fields, value = .obj fields ∧ Json.item? fields key = some found := by
  cases value with
  | obj fields =>
    rw [Json.subscript]
    cases h : Json.item? fields key <;> simp [h]
  | null | bool | int | float | str | list => simp [Json.subscript]

omit [Runtime] in
theorem parse_eq_ok_iff {text : Str} {value : Json} :
    Json.parse text = .ok value ↔ Json.loads text = .ok value := by
  unfold Json.parse
  cases Json.loads text with
  | ok v => simp
  | error e => cases e <;> simp

omit [Numerics] in
theorem dateOf_eq_ok_iff {value : Json} {d : Date} :
    dateOf value = .ok d ↔ ∃ day, value = .str day ∧ Date.fromisoformat day = some d := by
  cases value with
  | str s =>
    rw [dateOf]
    cases h : Date.fromisoformat s <;> simp [h]
  | null | bool | int | float | list | obj => simp [dateOf]

omit [Runtime] [Numerics] in
theorem items_eq_ok_iff {value : Json} {items : List Json} :
    value.items = .ok items ↔ iterable? value = some items := by
  unfold Json.items iterable?
  cases value.iter <;> simp [Except.toOption]

/-- **What is read of a line** are the fields of the object that it is. -/
theorem readRow_eq_ok_iff {line : Str} {row : Row} : readRow line = .ok row ↔
    ∃ fields ids day, Json.loads line = .ok (.obj fields) ∧
      Json.item? fields "case_id" = some row.caseId ∧ Json.item? fields "query" = some row.query ∧
      (Json.item? fields "as_of" = some (.str day) ∧ Date.fromisoformat day = some row.asOf) ∧
      (Json.item? fields "expected_ids" = some ids ∧ iterable? ids = some row.expectedIds) ∧
      row.abstain = (Json.lookup fields "abstain" (.bool false)).truthy := by
  unfold readRow
  constructor
  · intro h
    obtain ⟨value, hvalue, h⟩ := bind_eq_ok_iff.mp h
    obtain ⟨caseId, hid, h⟩ := bind_eq_ok_iff.mp h
    obtain ⟨query, hquery, h⟩ := bind_eq_ok_iff.mp h
    obtain ⟨day, hday, h⟩ := bind_eq_ok_iff.mp h
    obtain ⟨asOf, hasOf, h⟩ := bind_eq_ok_iff.mp h
    obtain ⟨ids, hids, h⟩ := bind_eq_ok_iff.mp h
    obtain ⟨expectedIds, hexpected, h⟩ := bind_eq_ok_iff.mp h
    obtain ⟨abstain, habstain, h⟩ := bind_eq_ok_iff.mp h
    cases h
    obtain ⟨fields, rfl, hitem⟩ := subscript_eq_ok_iff.mp hid
    -- the line is an object, as its first subscript was found
    have hfield : ∀ {key : String} {found : Json}, (Json.obj fields).subscript key = .ok found →
        Json.item? fields key = some found := by
      intro key found h
      obtain ⟨_, heq, hfound⟩ := subscript_eq_ok_iff.mp h
      cases heq
      exact hfound
    obtain ⟨text, rfl, hread⟩ := dateOf_eq_ok_iff.mp hasOf
    cases habstain
    exact ⟨fields, ids, text, parse_eq_ok_iff.mp hvalue, hitem, hfield hquery,
      ⟨hfield hday, hread⟩, ⟨hfield hids, items_eq_ok_iff.mp hexpected⟩, rfl⟩
  · rintro ⟨fields, ids, day, hloads, hid, hquery, ⟨hday, hasOf⟩, ⟨hids, hexpected⟩, habstain⟩
    have hsubscript : ∀ {key : String} {found : Json}, Json.item? fields key = some found →
        (Json.obj fields).subscript key = .ok found :=
      fun h => subscript_eq_ok_iff.mpr ⟨fields, rfl, h⟩
    rw [parse_eq_ok_iff.mpr hloads]
    simp only [bind, Except.bind, hsubscript hid, hsubscript hquery, hsubscript hday,
      dateOf_eq_ok_iff.mpr ⟨day, rfl, hasOf⟩, hsubscript hids, items_eq_ok_iff.mpr hexpected,
      Json.getOr, Json.get, pure, Except.pure]
    rw [← habstain]

/-- The line opens more brackets than the decoder has room for. -/
def TooDeep (line : Str) : Prop := ∃ text, Json.loads line = .error (.recursion text)

/-- Whatever is raised within the `try` is caught, but for what the decoder raises at a bracket
    too deep. The steps are gone through one by one. -/
theorem caught_readRow {line : Str} (h : ¬ TooDeep line) :
    Raises (fun error => caught error = true) (readRow line) := by
  -- a subscript raises `KeyError` or `TypeError`, and both are caught
  have hsubscript : ∀ (value : Json) (key : String),
      Raises (fun error => caught error = true) (value.subscript key) := by
    intro value key
    unfold Json.subscript
    split
    · split
      · exact raises_ok _
      · exact raises_error rfl
    · exact raises_error rfl
    · exact raises_error rfl
    · exact raises_error rfl
  unfold readRow
  refine Raises.bind ?_ fun value => ?_
  · unfold Json.parse
    split
    · exact raises_ok _
    · exact raises_error rfl
    · exact raises_error rfl
    · rename_i text hloads
      exact absurd ⟨text, hloads⟩ h
  · cases value with
    | obj fields =>
      refine (hsubscript _ _).bind fun caseId => (hsubscript _ _).bind fun query =>
        (hsubscript _ _).bind fun day => Raises.bind ?_ fun asOf => (hsubscript _ _).bind fun ids =>
          Raises.bind ?_ fun expectedIds => raises_ok _
      · unfold dateOf
        split
        · split
          · exact raises_ok _
          · exact raises_error rfl
        · exact raises_error rfl
      · unfold Json.items
        split
        · exact raises_ok _
        · exact raises_error rfl
    -- what is no object has no subscript
    | null | bool | int | float | str | list =>
      intro error h
      cases h
      rfl

theorem readRow_of_tooDeep {line : Str} (h : TooDeep line) :
    ∃ error, readRow line = .error error ∧ caught error = false ∧ ¬ error.IsValueError := by
  obtain ⟨text, hloads⟩ := h
  refine ⟨⟨.recursionError, text⟩, ?_, rfl, fun hvalue => ?_⟩
  · rw [readRow, Json.parse, hloads]
    rfl
  · rcases hvalue with hvalue | hvalue <;> cases hvalue

omit [Runtime] [Numerics] in
theorem caseOf?_eq_some_iff {seen : List Str} {row : Row} {case : EvaluationCase} :
    caseOf? seen row = some case ↔
      row = ⟨.str case.caseId, case.query, case.asOf, case.expectedIds, case.abstain⟩ ∧
        case.Strict ∧ case.caseId ∉ seen := by
  obtain ⟨caseId, query, asOf, expectedIds, abstain⟩ := row
  obtain ⟨caseId', query', asOf', expectedIds', abstain'⟩ := case
  cases caseId with
  | str caseId =>
    simp only [caseOf?]
    split
    · rename_i hcheck
      refine iff_of_false (fun h => nomatch h) ?_
      -- a check that fails is one that the contract has
      rintro ⟨heq, hstrict, hseen⟩
      cases heq
      have hquery := named_iff.mpr hstrict.query
      have hids : expectedIds.any (fun identifier => !named maxId identifier) = false := by
        simpa [named_iff] using hstrict.expectedIds
      obtain ⟨hne, hlength⟩ := hstrict.caseId
      simp only at hquery hne hlength hseen
      simp [hquery, hids, hne, hseen, Nat.not_lt.mpr hlength] at hcheck
    · rename_i hcheck
      simp only [Bool.or_eq_true, decide_eq_true_eq, Bool.not_eq_true', not_or, Bool.not_eq_false,
        List.any_eq_true, not_exists, not_and, Bool.not_eq_true, List.isEmpty_eq_false_iff,
        not_lt, named_iff] at hcheck
      obtain ⟨⟨⟨⟨hne, hlength⟩, hseen⟩, hquery⟩, hids⟩ := hcheck
      constructor
      · intro h
        cases h
        exact ⟨rfl, ⟨⟨hne, hlength⟩, hquery, hids⟩, hseen⟩
      · rintro ⟨heq, -, -⟩
        cases heq
        rfl
  | null | bool | int | float | list | obj => simp [caseOf?]

/-- **What a line adds** is the case of which it is a row, whose id has not been seen. -/
theorem row_iff {line : Str} {seen : List Str} {case : EvaluationCase} :
    (∃ row, readRow line = .ok row ∧ caseOf? seen row = some case) ↔
      IsRow iterable? line case ∧ case.caseId ∉ seen := by
  constructor
  · rintro ⟨row, hrow, hcase⟩
    obtain ⟨rfl, hstrict, hseen⟩ := caseOf?_eq_some_iff.mp hcase
    exact ⟨⟨hstrict, readRow_eq_ok_iff.mp hrow⟩, hseen⟩
  · rintro ⟨⟨hstrict, hfields⟩, hseen⟩
    exact ⟨_, readRow_eq_ok_iff.mpr hfields, caseOf?_eq_some_iff.mpr ⟨rfl, hstrict, hseen⟩⟩

/-!
## What the lines give

By induction over the lines. What the loop raises is a `ValueError`, or it has come to a line that
is too deep, behind lines that were good (`ShallowBehind`).
-/

/-- **The loop**: behind the cases it has it puts one for each line that is not blank. -/
theorem loadLines_eq_ok_iff (lineNumber : ℕ) {cases : List EvaluationCase} (lines : List Str)
    (result : List EvaluationCase) (hnodup : (cases.map (·.caseId)).Nodup)
    (hbound : cases.length ≤ maxCases) :
    loadLines lineNumber cases lines = .ok result ↔
      ∃ more, result = cases ++ more ∧ List.Forall₂ (IsRow iterable?) (lines.filter nonblank) more ∧
        (result.map (·.caseId)).Nodup ∧ result ≠ [] ∧ result.length ≤ maxCases := by
  induction lines generalizing lineNumber cases with
  | nil =>
    rw [loadLines]
    constructor
    · intro h
      split at h
      · cases h
      · rename_i hne
        cases h
        exact ⟨[], by simp, .nil, hnodup, fun hnil => hne (by simp [hnil]), hbound⟩
    · rintro ⟨more, heq, hrows, -, hne, -⟩
      cases hrows
      rw [List.append_nil] at heq
      subst heq
      rw [if_neg (by simpa using hne)]
  | cons line lines ih =>
    rw [loadLines]
    cases hblank : nonblank line with
    | false =>
      rw [List.filter_cons_of_neg (by simp [hblank])]
      exact ih (lineNumber + 1) hnodup hbound
    | true =>
      rw [List.filter_cons_of_pos hblank]
      have hskip : ¬ (!true) = true := by decide
      rw [if_neg hskip]
      -- whatever the row is, it is the case's, or there is none
      have hrows : ∀ more, List.Forall₂ (IsRow iterable?) (line :: lines.filter nonblank) more →
          ((cases ++ more).map (·.caseId)).Nodup →
            ∃ case rest, more = case :: rest ∧
              (∃ row, readRow line = .ok row ∧ caseOf? (cases.map (·.caseId)) row = some case) ∧
                List.Forall₂ (IsRow iterable?) (lines.filter nonblank) rest := by
        intro more hmore hall
        cases hmore with
        | cons hrow hrest =>
          rename_i case rest
          refine ⟨case, rest, rfl, row_iff.mpr ⟨hrow, fun hseen => ?_⟩, hrest⟩
          rw [List.map_append] at hall
          exact (List.disjoint_of_nodup_append hall) hseen List.mem_cons_self
      cases hrow : readRow line with
      | error error =>
        rw [hrow] at hrows
        refine iff_of_false (fun h => ?_) ?_
        · dsimp only at h
          split at h <;> cases h
        · rintro ⟨more, rfl, hmore, hall, -⟩
          obtain ⟨_, _, _, ⟨_, h, -⟩, -⟩ := hrows more hmore hall
          cases h
      | ok row =>
        rw [hrow] at hrows
        dsimp only
        cases hcase : caseOf? (cases.map (·.caseId)) row with
        | none =>
          refine iff_of_false (fun h => nomatch h) ?_
          rintro ⟨more, rfl, hmore, hall, -⟩
          obtain ⟨_, _, _, ⟨_, h, hsome⟩, -⟩ := hrows more hmore hall
          cases h
          rw [hcase] at hsome
          cases hsome
        | some case =>
          obtain ⟨hisRow, hseen⟩ := row_iff.mp ⟨row, hrow, hcase⟩
          have hnodup' : ((cases ++ [case]).map (·.caseId)).Nodup := by
            rw [List.map_append, List.nodup_append']
            exact ⟨hnodup, List.nodup_singleton _, by simpa using hseen⟩
          dsimp only
          split
          · rename_i hmany
            refine iff_of_false (fun h => nomatch h) ?_
            rintro ⟨more, rfl, hmore, hall, -, hlength⟩
            obtain ⟨_, rest, rfl, -⟩ := hrows more hmore hall
            simp only [List.length_append, List.length_cons, List.length_nil] at hmany hlength
            omega
          · rename_i hfew
            rw [ih (lineNumber + 1) hnodup' (Nat.not_lt.mp hfew)]
            constructor
            · rintro ⟨more, rfl, hmore, hrest⟩
              exact ⟨case :: more, by simp, .cons hisRow hmore, hrest⟩
            · rintro ⟨more, rfl, hmore, hall, hrest⟩
              obtain ⟨case', rest, rfl, ⟨_, h, hsome⟩, hforall⟩ := hrows more hmore hall
              cases h
              rw [hcase, Option.some.injEq] at hsome
              subst hsome
              exact ⟨rest, by simp, hforall, hall, hrest⟩

/-- **What is loaded** are the cases of the lines that Python finds in the text. -/
theorem loadCases_eq_ok_iff {source : SourcePin} (hsource : source.validate = .ok ()) {file : Str}
    {cases : List EvaluationCase} : loadCases file source = .ok cases ↔
      Format iterable? (splitlines (universalNewlines file)) cases := by
  have hload : loadCases file source = loadLines 1 [] (splitlines (universalNewlines file)) := by
    rw [loadCases, hsource]
    rfl
  have hnodup : (([] : List EvaluationCase).map (·.caseId)).Nodup := List.nodup_nil
  rw [hload, loadLines_eq_ok_iff 1 _ _ hnodup (Nat.zero_le _)]
  constructor
  · rintro ⟨more, rfl, hrows, hnodup, hne, hlength⟩
    exact ⟨hrows, hnodup, hne, hlength⟩
  · rintro ⟨hrows, hnodup, hne, hlength⟩
    exact ⟨cases, rfl, hrows, hnodup, hne, hlength⟩

/-- No line that is too deep is come to behind `cases`: one that stands behind rows of cases, whose
    ids have not been seen, and not too many of them. Blank lines are not among the lines. -/
def ShallowBehind (cases : List EvaluationCase) (lines : List Str) : Prop :=
  ∀ pre line post more, lines = pre ++ line :: post → List.Forall₂ (IsRow iterable?) pre more →
    ((cases ++ more).map (·.caseId)).Nodup → (cases ++ more).length ≤ maxCases → ¬ TooDeep line

omit [Runtime] in
theorem shallowBehind_nil (cases : List EvaluationCase) : ShallowBehind cases [] := by
  intro pre line post more hlines
  cases pre <;> cases hlines

omit [Runtime] in
theorem not_shallowBehind_of_tooDeep {cases : List EvaluationCase} {line : Str} {lines : List Str}
    (hnodup : (cases.map (·.caseId)).Nodup) (hbound : cases.length ≤ maxCases)
    (hdeep : TooDeep line) : ¬ ShallowBehind cases (line :: lines) := by
  intro h
  refine h [] line lines [] rfl .nil ?_ ?_ hdeep
  · rwa [List.append_nil]
  · rwa [List.append_nil]

/-- A row of a case, with an id that has not been seen, is read as it. -/
theorem read_of_isRow {cases more : List EvaluationCase} {case : EvaluationCase} {line : Str}
    (hrow : IsRow iterable? line case) (hnodup : ((cases ++ case :: more).map (·.caseId)).Nodup) :
    ∃ row, readRow line = .ok row ∧ caseOf? (cases.map (·.caseId)) row = some case := by
  rw [List.map_append] at hnodup
  exact row_iff.mpr
    ⟨hrow, fun hseen => (List.disjoint_of_nodup_append hnodup) hseen List.mem_cons_self⟩

/-- **Behind a line that is no row of a case**, or of one case too many, no line is come to. -/
theorem shallowBehind_of_stop {cases : List EvaluationCase} {line : Str} {lines : List Str}
    (hnone : ¬ ∃ row case, readRow line = .ok row ∧
      caseOf? (cases.map (·.caseId)) row = some case ∧ (cases ++ [case]).length ≤ maxCases)
    (hshallow : ¬ TooDeep line) : ShallowBehind cases (line :: lines) := by
  intro pre found post more hlines hrows hnodup hlength
  cases hrows with
  | nil =>
    obtain ⟨rfl, -⟩ := List.cons.inj hlines
    exact hshallow
  | cons hrow hrest =>
    obtain ⟨rfl, -⟩ := List.cons.inj hlines
    obtain ⟨row, hread, hcase⟩ := read_of_isRow hrow hnodup
    refine absurd ⟨row, _, hread, hcase, le_trans ?_ hlength⟩ hnone
    simp only [List.length_append, List.length_cons, List.length_nil]
    omega

/-- **Behind a row of a case**, the case is one of those that have been seen. -/
theorem shallowBehind_cons_iff {cases : List EvaluationCase} {line : Str} {lines : List Str}
    {row : Row} {case : EvaluationCase} (hread : readRow line = .ok row)
    (hcase : caseOf? (cases.map (·.caseId)) row = some case) (hshallow : ¬ TooDeep line) :
    ShallowBehind cases (line :: lines) ↔ ShallowBehind (cases ++ [case]) lines := by
  obtain ⟨hisRow, -⟩ := row_iff.mp ⟨row, hread, hcase⟩
  constructor
  · intro h pre found post more hlines hrows hnodup hlength
    have happend : cases ++ [case] ++ more = cases ++ case :: more := by simp
    rw [happend] at hnodup hlength
    exact h (line :: pre) found post (case :: more) (congrArg (line :: ·) hlines)
      (.cons hisRow hrows) hnodup hlength
  · intro h pre found post more hlines hrows hnodup hlength
    cases hrows with
    | nil =>
      obtain ⟨rfl, -⟩ := List.cons.inj hlines
      exact hshallow
    | cons hrow hrest =>
      rename_i first case' pre more
      obtain ⟨rfl, htail⟩ := List.cons.inj hlines
      -- the line is the row of one case only
      obtain rfl : case = case' := by
        obtain ⟨row', heq, hsome⟩ := read_of_isRow hrow hnodup
        rw [hread] at heq
        cases heq
        rw [hcase] at hsome
        exact Option.some.inj hsome
      have happend : cases ++ case :: more = cases ++ [case] ++ more := by simp
      rw [happend] at hnodup hlength
      exact h pre found post more htail hrest hnodup hlength

/-- **What the loop raises is a `ValueError`**, unless it comes to a line that is too deep. -/
theorem raises_loadLines_iff (lineNumber : ℕ) {cases : List EvaluationCase} (lines : List Str)
    (hnodup : (cases.map (·.caseId)).Nodup) (hbound : cases.length ≤ maxCases) :
    Raises Raised.IsValueError (loadLines lineNumber cases lines) ↔
      ShallowBehind cases (lines.filter nonblank) := by
  induction lines generalizing lineNumber cases with
  | nil =>
    exact iff_of_true (raises_ite (raises_error (.inl rfl)) (raises_ok _)) (shallowBehind_nil cases)
  | cons line lines ih =>
    rw [loadLines]
    cases hblank : nonblank line with
    | false =>
      rw [List.filter_cons_of_neg (by simp [hblank])]
      exact ih (lineNumber + 1) hnodup hbound
    | true =>
      have hskip : ¬ (!true) = true := by decide
      rw [List.filter_cons_of_pos hblank, if_neg hskip]
      by_cases hdeep : TooDeep line
      · obtain ⟨error, hread, hcaught, hvalue⟩ := readRow_of_tooDeep hdeep
        rw [hread]
        dsimp only
        rw [hcaught, if_neg Bool.false_ne_true]
        exact iff_of_false (fun h => hvalue (h error rfl))
          (not_shallowBehind_of_tooDeep hnodup hbound hdeep)
      cases hread : readRow line with
      | error error =>
        dsimp only
        rw [if_pos (caught_readRow hdeep error hread)]
        refine iff_of_true (raises_error (.inl rfl)) (shallowBehind_of_stop ?_ hdeep)
        rintro ⟨row, case, heq, -⟩
        rw [hread] at heq
        cases heq
      | ok row =>
        dsimp only
        cases hcase : caseOf? (cases.map (·.caseId)) row with
        | none =>
          refine iff_of_true (raises_error (.inl rfl)) (shallowBehind_of_stop ?_ hdeep)
          rintro ⟨row', case, heq, hsome, -⟩
          rw [hread] at heq
          cases heq
          rw [hcase] at hsome
          cases hsome
        | some case =>
          dsimp only
          split
          · rename_i hmany
            refine iff_of_true (raises_error (.inl rfl)) (shallowBehind_of_stop ?_ hdeep)
            rintro ⟨row', case', heq, hsome, hfew⟩
            simp only [List.length_append, List.length_cons, List.length_nil] at hmany hfew
            omega
          · rename_i hfew
            obtain ⟨-, hseen⟩ := row_iff.mp ⟨row, hread, hcase⟩
            have hnodup' : ((cases ++ [case]).map (·.caseId)).Nodup := by
              rw [List.map_append, List.nodup_append']
              exact ⟨hnodup, List.nodup_singleton _, by simpa using hseen⟩
            rw [ih (lineNumber + 1) hnodup' (Nat.not_lt.mp hfew)]
            exact (shallowBehind_cons_iff hread hcase hdeep).symm

/-- The loader does not come to a line that is too deep. Those before it would be the rows of as
    many cases, each with an id of its own, and no more of them than a corpus may have. -/
def Shallow (text : Str) : Prop :=
  ∀ pre line post cases, (splitlines text).filter nonblank = pre ++ line :: post →
    List.Forall₂ (IsRow iterable?) pre cases → (cases.map (·.caseId)).Nodup →
      cases.length ≤ maxCases → ¬ TooDeep line

/-- Whatever is raised is a `ValueError`, or a bracket too deep has been come to. -/
theorem raises_loadCases_iff {source : SourcePin} (hsource : source.validate = .ok ()) (file : Str) :
    Raises Raised.IsValueError (loadCases file source) ↔ Shallow (universalNewlines file) := by
  have hload : loadCases file source = loadLines 1 [] (splitlines (universalNewlines file)) := by
    rw [loadCases, hsource]
    rfl
  have hnodup : (([] : List EvaluationCase).map (·.caseId)).Nodup := List.nodup_nil
  rw [hload, raises_loadLines_iff 1 _ hnodup (Nat.zero_le _)]
  rfl

/-!
## Two ways to take a text apart

`splitlines` ends a line at more characters than a newline. A text that is in the format both ways
is taken apart alike: what one of the other line breaks would cut off an object is no object.
-/

section Format

variable {allowed : Json → Option (List Json)} {lines more : List Str} {cases : List EvaluationCase}

omit [Runtime] in
theorem Format.congr (h : lines.filter nonblank = more.filter nonblank)
    (hformat : Format allowed lines cases) : Format allowed more cases :=
  ⟨h ▸ hformat.rows, hformat.nodup, hformat.nonempty, hformat.bound⟩

omit [Runtime] in
/-- What is an array is something that `tuple` takes. -/
theorem Format.iterable (hformat : Format array? lines cases) : Format iterable? lines cases := by
  refine ⟨hformat.rows.imp fun line case hrow => ?_, hformat.nodup, hformat.nonempty, hformat.bound⟩
  obtain ⟨hstrict, fields, ids, day, hloads, hid, hquery, hday, ⟨hids, harray⟩, habstain⟩ := hrow
  refine ⟨hstrict, fields, ids, day, hloads, hid, hquery, hday, ⟨hids, ?_⟩, habstain⟩
  cases ids with
  | list items => exact harray
  | null | bool | int | float | str | obj => cases harray

omit [Runtime] in
theorem loads_of_mem (hformat : Format allowed lines cases) {line : Str} (hmem : line ∈ lines)
    (hline : nonblank line = true) : ∃ fields, Json.loads line = .ok (.obj fields) := by
  obtain ⟨case, -, hrow⟩ := exists_mem_of_forall₂ hformat.rows line (List.mem_filter.mpr ⟨hmem, hline⟩)
  obtain ⟨fields, _, _, hloads, -⟩ := hrow.fields
  exact ⟨fields, hloads⟩

omit [Runtime] in
theorem loads_of_space {u v : Str} {c : CodePoint} (hu : ∀ d ∈ u, isspace d = true)
    (hc : isspace c = true) (hspace : Json.isWhitespace c = false) (fields : List (Str × Json)) :
    Json.loads (u ++ c :: v) ≠ .ok (.obj fields) := by
  obtain ⟨d, r, hskip, hd⟩ : ∃ d r, Json.skip (u ++ c :: v) = d :: r ∧ isspace d = true := by
    induction u with
    | nil => exact ⟨c, v, Json.skip_cons hspace v, hc⟩
    | cons d u ih =>
      obtain ⟨hd, hu⟩ := List.forall_mem_cons.mp hu
      cases hwhite : Json.isWhitespace d with
      | false => exact ⟨d, u ++ c :: v, Json.skip_cons hwhite _, hd⟩
      | true =>
        obtain ⟨e, r, hskip, he⟩ := ih hu
        refine ⟨e, r, ?_, he⟩
        rw [← hskip, List.cons_append, Json.skip, List.dropWhile_cons_of_pos hwhite]
        rfl
  -- a space that JSON does not skip is a character that begins no object
  have hbare : Json.Bare d := by
    simp only [isspace, Bool.or_eq_true, Bool.and_eq_true, decide_eq_true_eq] at hd
    unfold Json.Bare
    omega
  intro hloads
  unfold Json.loads at hloads
  split at hloads
  · cases hloads
  · rw [hskip] at hloads
    obtain ⟨⟨value, rest⟩, hscan, hrest⟩ := bind_eq_ok_iff.mp hloads
    obtain ⟨hclosed, -⟩ := Json.scanOnce_bare hbare hscan
    dsimp only at hrest
    split at hrest
    · cases hrest
      cases hclosed
    · cases hrest

/-- No line that is not blank has a line break in it but the newline at its end. -/
def Separated (text : Str) : Prop :=
  ∀ part ∈ text.splitOn newline, nonblank part = true → Unbroken part

omit [Runtime] in
/-- **A text that is in the format both ways is taken apart in the same way**: what a line break
    cuts off an object is none. -/
theorem separated_of_formats {text : Str} {allowed' : Json → Option (List Json)}
    {cases' : List EvaluationCase} (hreturn : carriageReturn ∉ text)
    (hparts : Format allowed (text.splitOn newline) cases)
    (hlines : Format allowed' (splitlines text) cases') : Separated text := by
  intro part hpart hnonblank
  rcases unbroken_or_break part with hunbroken | ⟨u, c, v, rfl, hu, hc⟩
  · exact hunbroken
  obtain ⟨hnewline, hsub⟩ := mem_of_mem_splitOn hpart
  have hmem : c ∈ u ++ c :: v := List.mem_append_right _ List.mem_cons_self
  have hne : c ≠ carriageReturn := fun heq => hreturn (heq ▸ hsub c hmem)
  have hwhite : Json.isWhitespace c = false := by
    have hne' : c ≠ newline := fun heq => hnewline (heq ▸ hmem)
    have hval : c.val ≠ 0x0D ∧ c.val ≠ 0x0A :=
      ⟨fun h => hne (Fin.ext h), fun h => hne' (Fin.ext h)⟩
    simp only [isLineBreak, Bool.or_eq_true, Bool.and_eq_true, decide_eq_true_eq] at hc
    simp only [Json.isWhitespace, Bool.or_eq_false_iff, decide_eq_false_iff_not]
    omega
  obtain ⟨fields, hloads⟩ := loads_of_mem hparts hpart hnonblank
  -- the piece before the break is blank, or it is a line of its own, and then it is to be an
  -- object
  cases hfirst : nonblank u with
  | false =>
    exact absurd hloads (loads_of_space (nonblank_eq_false_iff.mp hfirst) (isspace_of_isLineBreak hc)
      hwhite fields)
  | true =>
    have hline : u ∈ (splitlines text).filter nonblank := by
      rw [filter_splitlines, List.mem_flatMap]
      refine ⟨_, hpart, ?_⟩
      rw [splitlines_break hu hc hne, List.filter_cons_of_pos hfirst]
      exact List.mem_cons_self
    obtain ⟨fields', hloads'⟩ := loads_of_mem hlines (List.mem_filter.mp hline).1 hfirst
    exact absurd hloads (Json.loads_append hloads' rfl hwhite v _)

/-- The expected ids are arrays. -/
def ArraysOnly (lines : List Str) : Prop :=
  ∀ line ∈ lines, ∀ fields ids, Json.loads line = .ok (.obj fields) →
    Json.item? fields "expected_ids" = some ids → ∃ items, ids = .list items

omit [Runtime] in
theorem arraysOnly_of_format (h : Format array? lines cases) : ArraysOnly (lines.filter nonblank) := by
  intro line hline fields ids hloads hids
  obtain ⟨case, -, hrow⟩ := exists_mem_of_forall₂ h.rows line hline
  obtain ⟨_, ids', _, hloads', -, -, -, ⟨hids', harray⟩, -⟩ := hrow.fields
  rw [hloads] at hloads'
  cases hloads'
  rw [hids, Option.some.injEq] at hids'
  subst hids'
  cases ids with
  | list items => exact ⟨items, rfl⟩
  | null | bool | int | float | str | obj => cases harray

omit [Runtime] in
theorem format_of_arraysOnly (h : Format iterable? lines cases) (harrays : ArraysOnly (lines.filter nonblank)) :
    Format array? lines cases := by
  have hrows : ∀ {ls : List Str} {cs : List EvaluationCase}, List.Forall₂ (IsRow iterable?) ls cs →
      ArraysOnly ls → List.Forall₂ (IsRow array?) ls cs := by
    intro ls cs hrows
    induction hrows with
    | nil => exact fun _ => .nil
    | cons hrow _ ih =>
      intro harrays
      refine .cons ?_ (ih fun line hline => harrays line (List.mem_cons_of_mem _ hline))
      obtain ⟨hstrict, fields, ids, day, hloads, hid, hquery, hday, ⟨hids, hiterable⟩, habstain⟩ := hrow
      obtain ⟨items, rfl⟩ := harrays _ List.mem_cons_self fields ids hloads hids
      exact ⟨hstrict, fields, _, day, hloads, hid, hquery, hday, ⟨hids, hiterable⟩, habstain⟩
  exact ⟨hrows h.rows harrays, h.nodup, h.nonempty, h.bound⟩

end Format

/-!
## When a file is loaded as its format says

The two differences together, and the bracket that is too deep: apart from these the loader and
the format agree.
-/

/-- The text is in the format, or would be if it ended its lines wherever Python does and had
    anything for its expected ids that makes a tuple. -/
def InFormat (text : Str) : Prop :=
  (∃ cases, Format array? (text.splitOn newline) cases) ∨
    ∃ cases, Format iterable? (splitlines text) cases

/-- None of what the loader takes beyond its format comes up. -/
structure Plain (text : Str) : Prop where
  /-- No line ends in anything but a newline, as it is cut. -/
  separated : Separated text
  /-- And no row has its expected ids in anything but an array. -/
  arrays : ArraysOnly ((splitlines text).filter nonblank)

/-- **The law is kept exactly if** a text in the format, either way, is plain, and no line too
    deep is come to. -/
theorem law_iff {source : SourcePin} (hsource : source.validate = .ok ()) (file : Str) :
    Law file source ↔ (InFormat (universalNewlines file) → Plain (universalNewlines file)) ∧
      Shallow (universalNewlines file) := by
  have hreturn := notMem_universalNewlines file
  rw [← raises_loadCases_iff hsource]
  constructor
  · intro hlaw
    refine ⟨fun hformat => ?_, hlaw.2⟩
    -- it is in the format both ways
    obtain ⟨cases, hparts, hlines⟩ : ∃ cases,
        Format array? ((universalNewlines file).splitOn newline) cases ∧
          Format iterable? (splitlines (universalNewlines file)) cases := by
      rcases hformat with ⟨cases, hparts⟩ | ⟨cases, hlines⟩
      · exact ⟨cases, hparts, (loadCases_eq_ok_iff hsource).mp ((hlaw.1 cases).mpr hparts)⟩
      · exact ⟨cases, (hlaw.1 cases).mp ((loadCases_eq_ok_iff hsource).mpr hlines), hlines⟩
    have hseparated := separated_of_formats hreturn hparts hlines
    refine ⟨hseparated, ?_⟩
    rw [filter_splitlines_eq_splitOn hseparated]
    exact arraysOnly_of_format hparts
  · intro h
    obtain ⟨hplain, hraises⟩ := h
    refine ⟨fun cases => ?_, hraises⟩
    rw [loadCases_eq_ok_iff hsource]
    constructor
    · intro hlines
      obtain ⟨hseparated, harrays⟩ := hplain (.inr ⟨cases, hlines⟩)
      exact (format_of_arraysOnly hlines harrays).congr (filter_splitlines_eq_splitOn hseparated)
    · intro hparts
      obtain ⟨hseparated, -⟩ := hplain (.inl ⟨cases, hparts⟩)
      exact (hparts.congr (filter_splitlines_eq_splitOn hseparated).symm).iterable

/-!
## What is written

The other direction, from cases to a file. Whatever is escaped in a string stays on its line, and
what JSON lets stand unescaped may be a line break to Python. That is the only way in which a
written file can fail to load.
-/

/-- The fields of the object of a case. -/
def EvaluationCase.fields (case : EvaluationCase) : List (Str × Json) :=
  [(lit "case_id", .str case.caseId), (lit "query", case.query),
    (lit "as_of", .str case.asOf.isoformat), (lit "expected_ids", .list case.expectedIds),
    (lit "abstain", .bool case.abstain)]

/-- The cases, one object a line. -/
def written (cases : List EvaluationCase) : Str :=
  cases.flatMap fun case => Json.dumpsRaw (.obj case.fields) ++ [newline]

/-- Cases that a file can have. -/
structure Writable (cases : List EvaluationCase) : Prop where
  strict : ∀ case ∈ cases, case.Strict
  nodup : (cases.map (·.caseId)).Nodup
  nonempty : cases ≠ []
  bound : cases.length ≤ maxCases

/-- The string a value is, if it is one. -/
def string? : Json → Option Str
  | .str s => some s
  | _ => none

/-- The strings that are written for a case, its date aside. -/
def EvaluationCase.strings (case : EvaluationCase) : List Str :=
  case.caseId :: (case.query :: case.expectedIds).filterMap string?

/-- No string of the case has a line break in it that is not escaped. -/
def EvaluationCase.Breakless (case : EvaluationCase) : Prop :=
  ∀ s ∈ case.strings, ∀ c ∈ s, 0x20 ≤ c.val → isLineBreak c = false

section Written

variable {case : EvaluationCase}

omit [Runtime] in
/-- A case is an object with a list in it, and nothing deeper. -/
theorem depth_fields_le (h : case.Strict) : (Json.obj case.fields).depth ≤ Decoder.room := by
  have hnamed : ∀ {limit : ℕ} {value : Json}, Named limit value → value.depth = 0 := by
    rintro limit value ⟨s, rfl, -⟩
    rfl
  have hids : Json.depthItems case.expectedIds = 0 := by
    have hall : ∀ ids : List Json, (∀ id ∈ ids, Named maxId id) → Json.depthItems ids = 0 := by
      intro ids
      induction ids with
      | nil => exact fun _ => rfl
      | cons id ids ih =>
        intro hids
        obtain ⟨hid, hids⟩ := List.forall_mem_cons.mp hids
        rw [Json.depthItems, hnamed hid, ih hids, Nat.max_self]
    exact hall _ h.expectedIds
  have hdepth : (Json.obj case.fields).depth = 2 := by
    simp only [EvaluationCase.fields, Json.depth, Json.depthMembers, hnamed h.query, hids]
    rfl
  rw [hdepth]
  exact le_trans (by decide) Decoder.ample

omit [Runtime] in
theorem loads_fields (h : case.Strict) : Json.loads (Json.dumpsRaw (.obj case.fields)) = .ok (.obj case.fields) := by
  have hnamed : ∀ {limit : ℕ} {value : Json}, Named limit value →
      Json.ReadAs (Json.dumpsRaw value) value := by
    rintro limit value ⟨s, rfl, -⟩
    exact (Json.keyAs_rawStr s).readAs
  have hids : ∀ ids : List Json, (∀ id ∈ ids, Named maxId id) →
      List.Forall₂ Json.ReadAs (Json.dumpsRawItems ids) ids := by
    intro ids
    induction ids with
    | nil => exact fun _ => .nil
    | cons id ids ih =>
      intro hids
      obtain ⟨hid, hids⟩ := List.forall_mem_cons.mp hids
      exact .cons (hnamed hid) (ih hids)
  have hbool : ∀ b : Bool, Json.ReadAs (Json.dumpsRaw (.bool b)) (.bool b) := by
    intro b
    cases b with
    | true => exact Json.readAs_dumps (j := .bool true) trivial
    | false => exact Json.readAs_dumps (j := .bool false) trivial
  have hmember : ∀ (key : Str) {value : Json}, Json.ReadAs (Json.dumpsRaw value) value →
      Json.MemberAs (Json.rawStr key ++ lit ": " ++ Json.dumpsRaw value) (key, value) :=
    fun key _ hvalue => ⟨_, _, rfl, Json.keyAs_rawStr key, hvalue⟩
  -- the keys differ, so none is read over another
  have hkeys : (case.fields.map Prod.fst).Nodup := by
    have hlit : [lit "case_id", lit "query", lit "as_of", lit "expected_ids", lit "abstain"].Nodup := by
      decide
    exact hlit
  have hmembers : List.Forall₂ Json.MemberAs (Json.dumpsRawMembers case.fields) case.fields :=
    .cons (hmember _ (Json.keyAs_rawStr _).readAs) (.cons (hmember _ (hnamed h.query))
    (.cons (hmember _ (Json.keyAs_rawStr _).readAs)
      (.cons (hmember _ (Json.readAs_list (hids _ h.expectedIds))) (.cons (hmember _ (hbool _)) .nil))))
  exact (Json.readAs_obj hmembers hkeys).loads (depth_fields_le h)

omit [Runtime] in
/-- **A written line is a row of its case.** -/
theorem isRow_fields (h : case.Strict) : IsRow array? (Json.dumpsRaw (.obj case.fields)) case := by
  refine ⟨h, _, _, _, loads_fields h, rfl, rfl, ⟨rfl, Date.fromisoformat_isoformat _⟩, ⟨rfl, rfl⟩, rfl⟩

omit [Runtime] [Numerics] in
theorem printable_isoformat (d : Date) : ∀ c ∈ d.isoformat, 0x20 ≤ c.val ∧ c.val < 0x7F := by
  have hpad : ∀ width n, ∀ c ∈ Date.pad width n, 0x20 ≤ c.val ∧ c.val < 0x7F := by
    intro width n c hc
    obtain ⟨i, -, rfl⟩ := List.mem_map.mp hc
    exact Json.printable_hexDigit _
  have hdash : lit "-" = [CodePoint.ofChar '-'] := by decide
  have hprintable : ∀ c ∈ lit "-", 0x20 ≤ c.val ∧ c.val < 0x7F := by
    rw [hdash]
    exact List.forall_mem_singleton.mpr (by decide)
  rw [Date.isoformat]
  exact List.forall_mem_append.mpr ⟨hpad _ _, List.forall_mem_append.mpr ⟨hprintable,
    List.forall_mem_append.mpr ⟨hpad _ _, List.forall_mem_append.mpr ⟨hprintable, hpad _ _⟩⟩⟩⟩

omit [Runtime] [Numerics] in
/-- What holds of printable ASCII holds of a line if it holds of the strings of the case, but for
    what is escaped. -/
theorem forall_mem_line_iff {P : CodePoint → Prop} (hP : ∀ c, 0x20 ≤ c.val → c.val < 0x7F → P c)
    (h : case.Strict) : (∀ c ∈ Json.dumpsRaw (.obj case.fields), P c) ↔
      ∀ s ∈ case.strings, ∀ c ∈ s, 0x20 ≤ c.val → P c := by
  have hascii : ∀ w : Str, (∀ c ∈ w, 0x20 ≤ c.val ∧ c.val < 0x7F) → ∀ c ∈ w, P c :=
    fun w hw c hc => hP c (hw c hc).1 (hw c hc).2
  have hlit : ∀ w : Str, (w.all fun c => 0x20 ≤ c.val && c.val < 0x7F) = true → ∀ c ∈ w, P c := by
    intro w hw
    refine hascii w fun c hc => ?_
    simpa using List.all_eq_true.mp hw c hc
  have hraw := Json.forall_mem_rawStr_iff hP
  have hids : ∀ ids : List Json, (∀ id ∈ ids, Named maxId id) →
      ((∀ w ∈ Json.dumpsRawItems ids, ∀ c ∈ w, P c) ↔
        ∀ s ∈ ids.filterMap string?, ∀ c ∈ s, 0x20 ≤ c.val → P c) := by
    intro ids
    induction ids with
    | nil => exact fun _ => iff_of_true (List.forall_mem_nil _) (List.forall_mem_nil _)
    | cons id ids ih =>
      intro hnamed
      obtain ⟨⟨s, rfl, -⟩, hrest⟩ := List.forall_mem_cons.mp hnamed
      have hfound : (Json.str s :: ids).filterMap string? = s :: ids.filterMap string? := rfl
      rw [Json.dumpsRawItems, List.forall_mem_cons, ih hrest, Json.dumpsRaw, hraw, hfound,
        List.forall_mem_cons]
  -- the keys are literals, so of a member only the value counts
  have hmember : ∀ (key : Str) (value : Json), (key.all fun c => 0x20 ≤ c.val && c.val < 0x7F) = true →
      ((∀ c ∈ Json.rawStr key ++ lit ": " ++ Json.dumpsRaw value, P c) ↔
        ∀ c ∈ Json.dumpsRaw value, P c) := by
    intro key value hkey
    rw [List.forall_mem_append, List.forall_mem_append, and_iff_left (hlit (lit ": ") (by decide)),
      and_iff_right ((hraw key).mpr fun c hc _ => hlit key hkey c hc)]
  have habstain : ∀ b : Bool, ∀ c ∈ Json.dumpsRaw (.bool b), P c := by
    intro b
    cases b with
    | true => exact hlit (lit "true") (by decide)
    | false => exact hlit (lit "false") (by decide)
  have hday : ∀ c ∈ Json.dumpsRaw (.str case.asOf.isoformat), P c :=
    (hraw _).mpr fun c hc _ => hascii _ (printable_isoformat _) c hc
  have hlist : (∀ c ∈ Json.dumpsRaw (.list case.expectedIds), P c) ↔
      ∀ s ∈ case.expectedIds.filterMap string?, ∀ c ∈ s, 0x20 ≤ c.val → P c := by
    rw [Json.dumpsRaw, List.forall_mem_append, List.forall_mem_append,
      and_iff_left (hlit (lit "]") (by decide)), and_iff_right (hlit (lit "[") (by decide)),
      forall_mem_join_iff (hlit (lit ", ") (by decide)), hids _ h.expectedIds]
  obtain ⟨s, hquery, -⟩ := h.query
  -- of the values, those that are texts of the case
  have hstrings : case.strings = case.caseId :: s :: case.expectedIds.filterMap string? := by
    rw [EvaluationCase.strings, hquery]
    rfl
  rw [hstrings, Json.dumpsRaw, List.forall_mem_append, List.forall_mem_append,
    and_iff_left (hlit (lit "\x7d") (by decide)), and_iff_right (hlit (lit "\x7b") (by decide)),
    forall_mem_join_iff (hlit (lit ", ") (by decide)), EvaluationCase.fields]
  simp only [Json.dumpsRawMembers, List.forall_mem_cons]
  rw [hmember _ _ (by decide), hmember _ _ (by decide), hmember _ _ (by decide),
    hmember _ _ (by decide), hmember _ _ (by decide), hquery, and_iff_right hday, hlist]
  refine and_congr (hraw _) (and_congr (hraw s) (and_iff_left ⟨habstain _, ?_⟩))
  exact List.forall_mem_nil _

omit [Runtime] [Numerics] in
/-- A line is not blank, ends where it is ended, and is broken only where a string of it is. -/
theorem line_spec (h : case.Strict) : nonblank (Json.dumpsRaw (.obj case.fields)) = true ∧
    (newline ∉ Json.dumpsRaw (.obj case.fields) ∧ carriageReturn ∉ Json.dumpsRaw (.obj case.fields)) ∧
      (Unbroken (Json.dumpsRaw (.obj case.fields)) ↔ case.Breakless) := by
  have hlow : ∀ c ∈ Json.dumpsRaw (.obj case.fields), 0x20 ≤ c.val :=
    (forall_mem_line_iff (fun _ hlow _ => hlow) h).mpr fun _ _ _ _ hlow => hlow
  refine ⟨?_, ⟨fun hmem => ?_, fun hmem => ?_⟩,
    forall_mem_line_iff (fun _ => isLineBreak_of_printable) h⟩
  · rw [← Bool.not_eq_false, nonblank_eq_false_iff]
    exact fun hblank => absurd (hblank (CodePoint.ofChar '{') List.mem_cons_self) (by decide)
  · exact absurd (hlow _ hmem) (by decide)
  · exact absurd (hlow _ hmem) (by decide)

omit [Runtime] [Numerics] in
theorem splitOn_written {cases : List EvaluationCase} (h : ∀ case ∈ cases, case.Strict) :
    ((written cases).splitOn newline).filter nonblank =
      cases.map fun case => Json.dumpsRaw (.obj case.fields) := by
  induction cases with
  | nil => rfl
  | cons case cases ih =>
    obtain ⟨hcase, hcases⟩ := List.forall_mem_cons.mp h
    obtain ⟨hnonblank, ⟨hnewline, -⟩, -⟩ := line_spec hcase
    have hwritten : written (case :: cases) =
        Json.dumpsRaw (.obj case.fields) ++ newline :: written cases := List.append_assoc ..
    rw [hwritten, List.splitOn_append_cons_self_of_not_mem hnewline, List.filter_cons_of_pos hnonblank,
      ih hcases, List.map_cons]

omit [Runtime] [Numerics] in
theorem universalNewlines_written {cases : List EvaluationCase} (h : ∀ case ∈ cases, case.Strict) :
    universalNewlines (written cases) = written cases := by
  refine universalNewlines_of_notMem fun hmem => ?_
  obtain ⟨case, hcase, hmem⟩ := List.mem_flatMap.mp hmem
  rcases List.mem_append.mp hmem with hmem | hmem
  · exact (line_spec (h case hcase)).2.1.2 hmem
  · exact absurd (List.mem_singleton.mp hmem) (by decide)

omit [Runtime] in
/-- **What is written is in the format.** -/
theorem format_written {cases : List EvaluationCase} (h : Writable cases) :
    Format array? ((written cases).splitOn newline) cases := by
  refine ⟨?_, h.nodup, h.nonempty, h.bound⟩
  rw [splitOn_written h.strict, List.forall₂_map_left_iff, List.forall₂_same]
  exact fun case hcase => isRow_fields (h.strict case hcase)

omit [Runtime] [Numerics] in
/-- The lines of what is written are unbroken if the strings of its cases are. -/
theorem separated_written_iff {cases : List EvaluationCase} (h : ∀ case ∈ cases, case.Strict) :
    Separated (written cases) ↔ ∀ case ∈ cases, case.Breakless := by
  have hparts : Separated (written cases) ↔
      ∀ part ∈ ((written cases).splitOn newline).filter nonblank, Unbroken part := by
    unfold Separated
    simp only [List.mem_filter, and_imp]
  rw [hparts, splitOn_written h, List.forall_mem_map]
  exact forall₂_congr fun case hcase => (line_spec (h case hcase)).2.2

/-- **What is written is loaded exactly if** no string has a line break in it that is written as it
    is. -/
theorem loadCases_written_iff {source : SourcePin} (hsource : source.validate = .ok ())
    {cases : List EvaluationCase} (h : Writable cases) :
    loadCases (written cases) source = .ok cases ↔ ∀ case ∈ cases, case.Breakless := by
  have hformat := format_written h
  have htext := universalNewlines_written h.strict
  have hreturn : carriageReturn ∉ written cases := htext ▸ notMem_universalNewlines (written cases)
  rw [← separated_written_iff h.strict, loadCases_eq_ok_iff hsource, htext]
  constructor
  · exact separated_of_formats hreturn hformat
  · intro hseparated
    exact (hformat.congr (filter_splitlines_eq_splitOn hseparated).symm).iterable

end Written

/-- **A file is loaded as its format says exactly if**, where it is in the format one way or the
    other, its lines end in newlines only and its expected ids are arrays, and the loader comes to
    no line that nests too deep; and so written cases are loaded exactly if no string of theirs has
    a line break in it. -/
theorem law_iff_plain {source : SourcePin} (hsource : source.validate = .ok ()) :
    (∀ file, Law file source ↔
      (InFormat (universalNewlines file) → Plain (universalNewlines file)) ∧
        Shallow (universalNewlines file)) ∧
    ∀ cases, Writable cases →
      (loadCases (written cases) source = .ok cases ↔ ∀ case ∈ cases, case.Breakless) :=
  ⟨law_iff hsource, fun _ h => loadCases_written_iff hsource h⟩

end Load

section

attribute [local instance] cpython Numerics.verbatim

/-- A pin like the one of the smoke corpus: the law is asked of every file, and of every list of
    cases. -/
theorem law_iff_plain_here :
    (∀ file, Law file ⟨lit "local-smoke", lit "https://example.invalid/fixture",
        List.replicate 40 (CodePoint.ofChar 'a'), lit "normalized-v1"⟩ ↔
      (InFormat (universalNewlines file) → Plain (universalNewlines file)) ∧
        Shallow (universalNewlines file)) ∧
    ∀ cases, Writable cases →
      (loadCases (written cases) ⟨lit "local-smoke", lit "https://example.invalid/fixture",
        List.replicate 40 (CodePoint.ofChar 'a'), lit "normalized-v1"⟩ = .ok cases ↔
          ∀ case ∈ cases, case.Breakless) :=
  law_iff_plain (by decide)

/-- A case is refused whose query has a line separator in it. -/
theorem separator_refused : ∃ (file : Str) (source : SourcePin),
    file = lit "\x7b\"case_id\": \"one\", \"query\": \"coffee\u2028price\", \"as_of\": \"2026-01-01\", " ++
      lit "\"expected_ids\": [\"price\"], \"abstain\": false\x7d\n" ∧
    source.validate = .ok () ∧
    (∃ cases, Format array? ((universalNewlines file).splitOn newline) cases) ∧ ¬ Law file source := by
  let source : SourcePin := ⟨lit "local-smoke", lit "https://example.invalid/fixture",
    List.replicate 40 (CodePoint.ofChar 'a'), lit "normalized-v1"⟩
  let case : EvaluationCase :=
    ⟨lit "one", .str (lit "coffee\u2028price"), Date.lit 2026 1 1, [.str (lit "price")], false⟩
  have hcase : Writable [case] := by
    refine ⟨List.forall_mem_singleton.mpr ?_, List.nodup_singleton _, List.cons_ne_nil _ _, by decide⟩
    refine ⟨by decide, ⟨_, rfl, by decide, by decide⟩, ?_⟩
    exact List.forall_mem_singleton.mpr ⟨_, rfl, by decide, by decide⟩
  have hsource : source.validate = .ok () := by decide
  have hformat : Format array? ((universalNewlines (written [case])).splitOn newline) [case] := by
    rw [universalNewlines_written hcase.strict]
    exact format_written hcase
  have hbroken : ¬ case.Breakless := by
    intro h
    have hbreak := h (lit "coffee\u2028price") (by decide) (CodePoint.ofChar '\u2028') (by decide) (by decide)
    exact absurd hbreak (by decide)
  refine ⟨written [case], source, by decide, hsource, ⟨_, hformat⟩, fun hlaw => hbroken ?_⟩
  exact (loadCases_written_iff hsource hcase).mp ((hlaw.1 _).mpr hformat) case List.mem_cons_self

end

end AdversarialCognition.Corpus
