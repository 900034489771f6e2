import AdversarialCognition.Corpus.LoadCases
import AdversarialCognition.Lib.Numbered
import Mathlib.Data.List.Sigma

/-!
# Loading the public corpora

`public_loaders.py`: the cases of LoCoMo and LongMemEval, of what `json.loads` gives, and of BEAM,
of the rows of a table. Ids are put together with colons, and questions and evidence are passed on
as they are. So the cases are as strict as those of a normalized file only if the input is
(`strictCorpus_iff_contract`).

## The contract of an input

For each corpus the contract is stated over its annotations, before anything is made of them. That
evidence and questions are strings of bounded length is what the loader of a normalized file
checks and these do not. That ids are not too long depends on how long the numbers in them are.
Ids of their own are a matter of how they are put together: LoCoMo numbers both parts, so nothing
can go wrong; LongMemEval takes the id of a question, so two questions may share one; and BEAM
puts a category behind the id of a conversation, so a colon in either makes two headings one.

For each of them a lemma says what is loaded (`loadLocomo_spec`, `loadLongmemeval_spec`,
`loadBeamParquet_spec`), and the contract is read off that.

## Tables

The table of BEAM is read by a library that is not part of the repository, and its cells hold
Python objects, or text that is a Python literal. `Objects` is what the loader asks of them.
Nothing is assumed about the answers, so the result holds of every library that has them. The
instance at the end is for a table of JSON values.

The result is about inputs that load. What a loader raises of the others is modelled, and nothing
is claimed of it.
-/

namespace AdversarialCognition.Corpus

open Py Py.Str

/-- What a loader raises. A literal may be no literal, or be too much to take in. -/
inductive LoadError
  | raised (error : Raised)
  | syntaxError (text : Str)
  | memoryError (text : Str)
  | recursionError (text : Str)

def valueError (text : String) : Raised := ⟨.valueError, text⟩

/-- What the loader of a normalized file makes sure of, of all cases. -/
structure StrictCorpus (cases : List EvaluationCase) : Prop where
  nodup : (cases.map (·.caseId)).Nodup
  strict : ∀ case ∈ cases, case.Strict

section Annotations

variable [Runtime]

/-- `tuple(value or ())` -/
def orNone (value : Json) : Except Raised (List Json) :=
  if value.truthy then value.items else .ok []

/-- `if not cases: raise error` -/
def unlessEmpty (error : Raised) (cases : List EvaluationCase) : Except Raised (List EvaluationCase) :=
  if cases.isEmpty then .error error else .ok cases

/-!
## LoCoMo

A sample has annotations, and an annotation is a case. Its id is made of two numbers.
-/

/-- The id of an annotation: the numbers of its sample and of itself. -/
def locomoId (sampleIndex qaIndex : ℕ) : Str :=
  lit "locomo:" ++ ofNat sampleIndex ++ lit ":" ++ ofNat qaIndex

/-- The case of one annotation. It is one that abstains if it has no evidence. -/
def locomoCase (asOf : Date) (sampleIndex qaIndex : ℕ) (note : Json) :
    Except Raised EvaluationCase := do
  let evidence ← orNone (← note.getOr "evidence" .null)
  let question ← note.subscript "question"
  return {
    caseId := locomoId sampleIndex qaIndex
    query := question
    asOf := asOf
    expectedIds := evidence
    abstain := evidence.isEmpty }

/-- The cases of one sample. Its annotations are numbered from zero. -/
def locomoSample (asOf : Date) (sampleIndex : ℕ) (sample : Json) :
    Except Raised (List EvaluationCase) := do
  let annotations ← (← sample.getOr "qa" (.list [])).items
  annotations.zipIdx.mapM fun note => locomoCase asOf sampleIndex note.2 note.1

/-- `load_locomo`, of the rows that are read. -/
def loadLocomo (rows : Json) (asOf : Date) : Except Raised (List EvaluationCase) := do
  let cases ← (← rows.items).zipIdx.mapM fun sample => locomoSample asOf sample.2 sample.1
  unlessEmpty (valueError "LoCoMo corpus has no QA annotations") cases.flatten

/-!
## LongMemEval

A row is a case, under the id that it has.
-/

/-- `value[:10]`. A slice is a key like any other to a dictionary, and never one that it has. -/
def upToTen : Json → Except Raised Json
  | .str s => .ok (.str (s.take 10))
  | .list items => .ok (.list (items.take 10))
  | .obj _ => .error ⟨.keyError, "slice(None, 10, None)"⟩
  | other => .error ⟨.typeError, lit "'" ++ other.typeName ++ lit "' object is not subscriptable"⟩

/-- The case of one row. It is one that abstains if its id says so. -/
def longmemevalCase (row : Json) : Except Raised EvaluationCase := do
  let questionId ← row.subscript "question_id"
  let questionDate ← dateOf (← upToTen (← row.subscript "question_date"))
  let evidence ← orNone (← row.getOr "answer_session_ids" .null)
  let question ← row.subscript "question"
  match questionId with
  | .str questionId => return {
      caseId := lit "longmemeval:" ++ questionId
      query := question
      asOf := questionDate
      expectedIds := evidence
      abstain := (lit "_abs").isSuffixOf questionId }
  | other =>
      throw ⟨.attributeError, lit "'" ++ other.typeName ++ lit "' object has no attribute 'endswith'"⟩

/-- `load_longmemeval`, of the rows that are read. -/
def loadLongmemeval (rows : Json) : Except Raised (List EvaluationCase) := do
  let cases ← (← rows.items).mapM longmemevalCase
  unlessEmpty (valueError "LongMemEval corpus is empty") cases

end Annotations

/-!
## BEAM

A row is a conversation, with a literal in one of its columns that has the questions by category.
The objects in the table and in the literal are taken as given: all that is used of them is what
the built-ins do with them.
-/

/-- What the built-ins do with the objects of a table and of the literals in it. -/
class Objects (α : Type) where
  /-- `bool(value)` -/
  truthy : α → Bool
  /-- `str(value)`, and so `f"{value}"` -/
  string : α → Except LoadError Str
  /-- The string that it is, if it is one. -/
  string? : α → Option Str
  /-- `value.items()` -/
  members : α → Except LoadError (List (α × α))
  /-- `for item in value` -/
  elements : α → Except LoadError (List α)
  /-- `value.get("question")`, if it is a dictionary and has one. -/
  question? : α → Option α
  /-- `ast.literal_eval(text)` -/
  literalEval : Str → Except LoadError α

/-- The columns of a row that are read, if they are there. -/
structure BeamRow (α : Type) where
  conversationId : Option α
  probingQuestions : Option α

section Table

variable [Runtime] {α : Type} [Objects α]

/-- `(questions or {}).items()` -/
def BeamRow.questions (row : BeamRow α) : Except LoadError (List (α × α)) := do
  let questions ←
    match row.probingQuestions with
    | none => Objects.literalEval []
    | some encoded =>
        match Objects.string? encoded with
        | some text => Objects.literalEval text
        | none => .ok encoded
  if Objects.truthy questions then Objects.members questions else return []

/-- `row["conversation_id"]` -/
def BeamRow.conversation (row : BeamRow α) : Except LoadError α :=
  match row.conversationId with
  | some value => .ok value
  | none => .error (.raised ⟨.keyError, (lit "conversation_id").repr⟩)

/-- `entries or ()` -/
def entriesOrNone (entries : α) : Except LoadError (List α) :=
  if Objects.truthy entries then Objects.elements entries else .ok []

/-- The entries that are not skipped, with their index and their question. -/
def asked (entries : List α) : List (ℕ × α) :=
  entries.zipIdx.filterMap fun entry =>
    ((Objects.question? entry.1).filter Objects.truthy).map fun question => (entry.2, question)

/-- The case of one question. Its category says if it is one that abstains. -/
def beamCase (conversationId : Str) (category : α) (index : ℕ) (question : α) :
    Except LoadError EvaluationCase := do
  let name ← Objects.string category
  let query ← Objects.string question
  return {
    caseId := lit "beam:" ++ conversationId ++ lit ":" ++ name ++ lit ":" ++ ofNat index
    query := .str query
    asOf := Date.lit 9999 12 31
    expectedIds := [.str conversationId]
    abstain := lower name == lit "abstention" }

/-- The cases of one category. An entry without a question is skipped, and still counts in the
    numbers. -/
def beamCategory (conversationId : Str) (category entries : α) :
    Except LoadError (List EvaluationCase) := do
  (asked (← entriesOrNone entries)).mapM fun entry => beamCase conversationId category entry.1 entry.2

def normalizeBeamRow (row : BeamRow α) : Except LoadError (List EvaluationCase) := do
  let conversationId ← Objects.string (← row.conversation)
  let cases ← (← row.questions).mapM fun member => beamCategory conversationId member.1 member.2
  (unlessEmpty (valueError "BEAM row has no probing questions") cases.flatten).mapError .raised

/-- `load_beam_parquet`, of the rows that the table gives. -/
def loadBeamParquet (table : List (BeamRow α)) : Except LoadError (List EvaluationCase) := do
  let cases ← table.mapM normalizeBeamRow
  (unlessEmpty (valueError "BEAM corpus is empty") cases.flatten).mapError .raised

/-!
## Any of them

The three loaders under one type, for what is said of all.
-/

/-- A public corpus: what is read of its file. -/
inductive PublicCorpus (α : Type)
  | locomo (rows : Json) (asOf : Date)
  | longmemeval (rows : Json)
  | beam (table : List (BeamRow α))

def PublicCorpus.load : PublicCorpus α → Except LoadError (List EvaluationCase)
  | .locomo rows asOf => (loadLocomo rows asOf).mapError .raised
  | .longmemeval rows => (loadLongmemeval rows).mapError .raised
  | .beam table => loadBeamParquet table

end Table

/-!
## What there is to load

The input, as a loader sees it, and what it would have to be: the texts are strings within their
bounds, and ids differ where they have to. Each contract says the second in the terms of its own
ids.
-/

/-- The items of what can be iterated over. -/
def items (value : Json) : List Json := (iterable? value).getD []

/-- A field of a value that may be no dictionary. -/
def field (key : String) (default : Json) : Json → Json
  | .obj fields => Json.lookup fields key default
  | _ => default

/-- A question and, under `ids`, its evidence, as a normalized file would have them. -/
structure Annotated (ids : String) (note : Json) : Prop where
  question : Named maxQuery (field "question" .null note)
  evidence : ∀ identifier ∈ items (field ids .null note), Named maxId identifier

/-- The samples, with their numbers. -/
def samples (rows : Json) : List (Json × ℕ) := (items rows).zipIdx

/-- The annotations of a sample, with their numbers. -/
def annotations (sample : Json) : List (Json × ℕ) := (items (field "qa" (.list []) sample)).zipIdx

/-- LoCoMo: its ids are as long as its numbers are. -/
def LocomoContract (rows : Json) : Prop :=
  ∀ sample ∈ samples rows, ∀ note ∈ annotations sample.1,
    Annotated "evidence" note.1 ∧ (locomoId sample.2 note.2).length ≤ maxId

/-- LongMemEval: no two questions have one id. -/
structure LongmemevalContract (rows : Json) : Prop where
  apart : ((items rows).map (field "question_id" .null)).Nodup
  annotated : ∀ row ∈ items rows, Annotated "answer_session_ids" row
  short : ∀ row ∈ items rows, ∀ questionId, field "question_id" .null row = .str questionId →
    (lit "longmemeval:" ++ questionId).length ≤ maxId

/-- The questions of one category of a conversation, with their numbers. -/
structure BeamGroup where
  conversation : Str
  category : Str
  questions : List (ℕ × Str)

/-- What comes before the number of a question in its id. -/
def BeamGroup.heading (group : BeamGroup) : Str :=
  lit "beam:" ++ group.conversation ++ lit ":" ++ group.category

section Table

variable {α : Type} [Objects α]

/-- What `str` gives of a value. -/
def textOf (value : α) : Str := (Objects.string value).toOption.getD []

/-- The entries of a category. -/
def elementsOf (entries : α) : List α := (entriesOrNone entries).toOption.getD []

variable [Runtime]

/-- The id of the conversation, as a text. -/
def BeamRow.name (row : BeamRow α) : Str := (row.conversationId.map textOf).getD []

/-- The categories of a row, with their questions. -/
def BeamRow.groups (row : BeamRow α) : List BeamGroup :=
  (row.questions.toOption.getD []).map fun member => {
    conversation := row.name
    category := textOf member.1
    questions := (asked (elementsOf member.2)).map (Prod.map id textOf) }

/-- BEAM: no two categories of one heading have questions of one number. A colon within the id of a
    conversation, or of a category, makes for the same heading. -/
structure BeamContract (table : List (BeamRow α)) : Prop where
  apart : (table.flatMap BeamRow.groups).Pairwise fun group other =>
    group.heading = other.heading →
      (group.questions.map Prod.fst).Disjoint (other.questions.map Prod.fst)
  named : ∀ row ∈ table, row.name ≠ []
  bounded : ∀ group ∈ table.flatMap BeamRow.groups, ∀ question ∈ group.questions,
    (numberedName group.heading question.1).length ≤ maxId ∧
      question.2 ≠ [] ∧ question.2.length ≤ maxQuery

/-- What the input of a loader has to be for its cases to be as strict as they should be. -/
def PublicCorpus.Contract : PublicCorpus α → Prop
  | .locomo rows _ => LocomoContract rows
  | .longmemeval rows => LongmemevalContract rows
  | .beam table => BeamContract table

end Table

/-!
## What is loaded

Each loader returns the cases of its input, one for each question, and drops nothing but what it
skips. So its cases are strict exactly if the input is as the contract says: the numbers in an id
see to it that the ids differ, as far as they reach.
-/

section Annotations

theorem items_of_items {value : Json} {found : List Json} (h : value.items = .ok found) :
    found = items value := by
  rw [items, items_eq_ok_iff.mp h]
  rfl

theorem items_of_orNone {value : Json} {found : List Json} (h : orNone value = .ok found) :
    found = items value := by
  unfold orNone at h
  split at h
  · exact items_of_items h
  · rename_i hfalsy
    cases h
    cases value with
    | str s | list s | obj s =>
      cases s with
      | nil => rfl
      | cons => exact absurd rfl hfalsy
    | null | bool | int | float => rfl

theorem field_of_getOr {value found : Json} {key : String} {default : Json}
    (h : value.getOr key default = .ok found) : found = field key default value := by
  cases value with
  | obj fields =>
    cases h
    rfl
  | null | bool | int | float | str | list => cases h

theorem field_of_subscript [Runtime] {value found : Json} {key : String} (default : Json)
    (h : value.subscript key = .ok found) : found = field key default value := by
  obtain ⟨fields, rfl, hfound⟩ := subscript_eq_ok_iff.mp h
  unfold Json.item? at hfound
  rw [field, Json.lookup, hfound]
  rfl

theorem unlessEmpty_eq_ok_iff {error : Raised} {cases result : List EvaluationCase} :
    unlessEmpty error cases = .ok result ↔ result = cases ∧ cases ≠ [] := by
  unfold unlessEmpty
  cases cases with
  | nil => simp
  | cons case cases => simp [eq_comm]

/-- The case of an annotation, as the fields of it are. -/
def annotatedCase (ids : String) (caseId : Str) (asOf : Date) (abstain : Bool) (note : Json) :
    EvaluationCase where
  caseId := caseId
  query := field "question" .null note
  asOf := asOf
  expectedIds := items (field ids .null note)
  abstain := abstain

/-- A case is strict if its annotation is, and its id is not too long. -/
theorem strict_annotatedCase_iff {ids : String} {caseId : Str} {asOf : Date} {abstain : Bool}
    {note : Json} (hne : caseId ≠ []) :
    (annotatedCase ids caseId asOf abstain note).Strict ↔
      Annotated ids note ∧ caseId.length ≤ maxId :=
  ⟨fun h => ⟨⟨h.query, h.expectedIds⟩, h.caseId.2⟩, fun h => ⟨⟨hne, h.2⟩, h.1.question, h.1.evidence⟩⟩

variable [Runtime]

/-- **What is loaded of LoCoMo**: the case of each annotation of each sample. -/
theorem loadLocomo_spec {rows : Json} {asOf : Date} {cases : List EvaluationCase}
    (h : loadLocomo rows asOf = .ok cases) :
    cases = (samples rows).flatMap fun sample => (annotations sample.1).map fun note =>
      annotatedCase "evidence" (locomoId sample.2 note.2) asOf
        (items (field "evidence" .null note.1)).isEmpty note.1 := by
  obtain ⟨found, hrows, h⟩ := bind_eq_ok_iff.mp h
  obtain ⟨groups, hgroups, h⟩ := bind_eq_ok_iff.mp h
  obtain ⟨rfl, -⟩ := unlessEmpty_eq_ok_iff.mp h
  rw [items_of_items hrows] at hgroups
  rw [eq_map_of_mapM hgroups fun sample group hgroup => ?_]
  · rfl
  obtain ⟨qa, hqa, hgroup⟩ := bind_eq_ok_iff.mp hgroup
  obtain ⟨listed, hlisted, hgroup⟩ := bind_eq_ok_iff.mp hgroup
  rw [items_of_items hlisted, field_of_getOr hqa] at hgroup
  refine eq_map_of_mapM hgroup fun note case hcase => ?_
  obtain ⟨ids, hids, hcase⟩ := bind_eq_ok_iff.mp hcase
  obtain ⟨evidence, hevidence, hcase⟩ := bind_eq_ok_iff.mp hcase
  obtain ⟨question, hquestion, hcase⟩ := bind_eq_ok_iff.mp hcase
  cases hcase
  rw [items_of_orNone hevidence, field_of_getOr hids, field_of_subscript .null hquestion]
  rfl

/-- The numbers make for different ids, whatever the annotations are. -/
theorem nodup_loadLocomo {rows : Json} {asOf : Date} {cases : List EvaluationCase}
    (h : loadLocomo rows asOf = .ok cases) : (cases.map (·.caseId)).Nodup := by
  have hnumbers : ∀ l : List Json, (l.zipIdx.map Prod.snd).Nodup := List.nodup_zipIdx_map_snd
  have hnodup : ((samples rows).flatMap fun sample =>
      ((annotations sample.1).map Prod.snd).map (numberedName (lit "locomo:" ++ ofNat sample.2))).Nodup := by
    refine nodup_flatMap_numberedName.mpr ⟨fun sample _ => hnumbers _, ?_⟩
    refine (List.pairwise_map.mp (hnumbers (items rows))).imp fun {sample other} hne heq => ?_
    exact absurd (ofNat_injective (List.append_cancel_left heq)) hne
  rw [loadLocomo_spec h, List.map_flatMap]
  simp only [List.map_map] at hnodup ⊢
  exact hnodup

/-- The ids are apart by their numbers, so the contract is about the rest. -/
theorem strictCorpus_locomo_iff {rows : Json} {asOf : Date} {cases : List EvaluationCase}
    (h : loadLocomo rows asOf = .ok cases) : StrictCorpus cases ↔ LocomoContract rows := by
  have hids : ∀ i j, locomoId i j ≠ [] := fun i j h => by simp [locomoId, lit] at h
  have hnodup := nodup_loadLocomo h
  rw [loadLocomo_spec h] at hnodup ⊢
  constructor
  · intro hstrict sample hsample note hannotation
    have hcase := List.forall_mem_flatMap.mp hstrict.strict sample hsample
    exact (strict_annotatedCase_iff (hids _ _)).mp (List.forall_mem_map.mp hcase note hannotation)
  · refine fun hcontract => ⟨hnodup, List.forall_mem_flatMap.mpr fun sample hsample => ?_⟩
    refine List.forall_mem_map.mpr fun note hannotation => ?_
    exact (strict_annotatedCase_iff (hids _ _)).mpr (hcontract sample hsample note hannotation)

/-- **What is loaded of LongMemEval**: the case of each row, whose id is a string. -/
theorem loadLongmemeval_spec {rows : Json} {cases : List EvaluationCase}
    (h : loadLongmemeval rows = .ok cases) :
    List.Forall₂ (fun row case => ∃ questionId asOf abstain,
      field "question_id" .null row = .str questionId ∧
        case = annotatedCase "answer_session_ids" (lit "longmemeval:" ++ questionId) asOf abstain row)
      (items rows) cases := by
  obtain ⟨found, hrows, h⟩ := bind_eq_ok_iff.mp h
  obtain ⟨loaded, hloaded, h⟩ := bind_eq_ok_iff.mp h
  obtain ⟨rfl, -⟩ := unlessEmpty_eq_ok_iff.mp h
  rw [items_of_items hrows] at hloaded
  refine (forall₂_of_mapM hloaded).imp fun row case hcase => ?_
  obtain ⟨questionId, hid, hcase⟩ := bind_eq_ok_iff.mp hcase
  obtain ⟨day, -, hcase⟩ := bind_eq_ok_iff.mp hcase
  obtain ⟨prefixOfDay, -, hcase⟩ := bind_eq_ok_iff.mp hcase
  obtain ⟨questionDate, -, hcase⟩ := bind_eq_ok_iff.mp hcase
  obtain ⟨ids, hids, hcase⟩ := bind_eq_ok_iff.mp hcase
  obtain ⟨evidence, hevidence, hcase⟩ := bind_eq_ok_iff.mp hcase
  obtain ⟨question, hquestion, hcase⟩ := bind_eq_ok_iff.mp hcase
  cases questionId with
  | str questionId =>
    cases hcase
    refine ⟨questionId, questionDate, (lit "_abs").isSuffixOf questionId,
      (field_of_subscript .null hid).symm, ?_⟩
    rw [items_of_orNone hevidence, field_of_getOr hids, field_of_subscript .null hquestion]
    rfl
  | null | bool | int | float | list | obj => cases hcase

theorem strictCorpus_longmemeval_iff {rows : Json} {cases : List EvaluationCase}
    (h : loadLongmemeval rows = .ok cases) : StrictCorpus cases ↔ LongmemevalContract rows := by
  have hspec := loadLongmemeval_spec h
  have hid : ∀ s : Str, lit "longmemeval:" ++ s ≠ [] := fun s h => by simp [lit] at h
  have hnodup : (cases.map (·.caseId)).Nodup ↔ ((items rows).map (field "question_id" .null)).Nodup := by
    have hshared := exists_map_eq_of_forall₂ (f := field "question_id" .null) (g := (·.caseId))
      (u := Json.str) (v := (lit "longmemeval:" ++ ·)) hspec fun row case hcase => by
        obtain ⟨questionId, asOf, abstain, hfield, rfl⟩ := hcase
        exact ⟨questionId, hfield, rfl⟩
    obtain ⟨ids, hfields, hcases⟩ := hshared
    rw [hfields, hcases, List.nodup_map_iff (List.append_right_injective _),
      List.nodup_map_iff fun _ _ => Json.str.inj]
  have hstrict : (∀ case ∈ cases, case.Strict) ↔ ∀ row ∈ items rows,
      Annotated "answer_session_ids" row ∧ ∀ questionId, field "question_id" .null row = .str questionId →
        (lit "longmemeval:" ++ questionId).length ≤ maxId := by
    refine forall_mem_iff_of_forall₂ hspec fun row _ case hcase => ?_
    obtain ⟨questionId, asOf, abstain, hfield, rfl⟩ := hcase
    rw [strict_annotatedCase_iff (hid questionId), hfield]
    refine and_congr_right fun _ => ⟨fun hlength s hs => ?_, fun hlength => hlength _ rfl⟩
    cases hs
    exact hlength
  constructor
  · intro h
    have hrows := hstrict.mp h.strict
    exact ⟨hnodup.mp h.nodup, fun row hrow => (hrows row hrow).1, fun row hrow => (hrows row hrow).2⟩
  · intro h
    exact ⟨hnodup.mpr h.apart, hstrict.mpr fun row hrow => ⟨h.annotated row hrow, h.short row hrow⟩⟩

end Annotations

section Table

variable {α : Type} [Objects α]

/-- The case of a question, as its group is. -/
def BeamGroup.case (group : BeamGroup) (question : ℕ × Str) : EvaluationCase where
  caseId := numberedName group.heading question.1
  query := .str question.2
  asOf := Date.lit 9999 12 31
  expectedIds := [.str group.conversation]
  abstain := lower group.category == lit "abstention"

/-- The cases of a group. -/
def BeamGroup.cases (group : BeamGroup) : List EvaluationCase := group.questions.map group.case

/-- An id that is short enough is so with the conversation in it. -/
theorem strict_case_iff {group : BeamGroup} {question : ℕ × Str} :
    (group.case question).Strict ↔ (numberedName group.heading question.1).length ≤ maxId ∧
      (question.2 ≠ [] ∧ question.2.length ≤ maxQuery) ∧ group.conversation ≠ [] := by
  have hid : numberedName group.heading question.1 ≠ [] := fun h => by
    simp [numberedName, BeamGroup.heading, lit] at h
  have hconversation : group.conversation.length ≤ (numberedName group.heading question.1).length := by
    simp only [numberedName, BeamGroup.heading, List.length_append]
    omega
  constructor
  · intro h
    obtain ⟨query, hquery, hbounds⟩ := h.query
    obtain ⟨identifier, hidentifier, hne, -⟩ := h.expectedIds _ List.mem_cons_self
    cases hquery
    cases hidentifier
    exact ⟨h.caseId.2, hbounds, hne⟩
  · rintro ⟨hlength, hbounds, hne⟩
    refine ⟨⟨hid, hlength⟩, ⟨_, rfl, hbounds⟩, List.forall_mem_singleton.mpr ⟨_, rfl, hne, ?_⟩⟩
    exact hconversation.trans hlength

theorem textOf_of_string {value : α} {text : Str} (h : Objects.string value = .ok text) :
    text = textOf value := by
  rw [textOf, h]
  rfl

theorem mapError_eq_ok_iff {ε ε' β : Type} {f : ε → ε'} {x : Except ε β} {b : β} :
    x.mapError f = .ok b ↔ x = .ok b := by
  cases x <;> simp [Except.mapError]

theorem beamCategory_spec {conversationId : Str} {category entries : α} {cases : List EvaluationCase}
    (h : beamCategory conversationId category entries = .ok cases) :
    cases = BeamGroup.cases ⟨conversationId, textOf category,
      (asked (elementsOf entries)).map (Prod.map id textOf)⟩ := by
  obtain ⟨listed, hlisted, h⟩ := bind_eq_ok_iff.mp h
  have hentries : listed = elementsOf entries := by
    rw [elementsOf, hlisted]
    rfl
  subst hentries
  rw [BeamGroup.cases, List.map_map]
  refine eq_map_of_mapM h fun entry case hcase => ?_
  obtain ⟨name, hname, hcase⟩ := bind_eq_ok_iff.mp hcase
  obtain ⟨query, hquery, hcase⟩ := bind_eq_ok_iff.mp hcase
  cases hcase
  rw [textOf_of_string hname, textOf_of_string hquery]
  rfl

variable [Runtime]

/-- **What is loaded of a row** are the cases of its groups, and there is one. -/
theorem normalizeBeamRow_spec {row : BeamRow α} {cases : List EvaluationCase}
    (h : normalizeBeamRow row = .ok cases) : cases = row.groups.flatMap BeamGroup.cases ∧ cases ≠ [] := by
  obtain ⟨value, hvalue, h⟩ := bind_eq_ok_iff.mp h
  obtain ⟨conversationId, hid, h⟩ := bind_eq_ok_iff.mp h
  obtain ⟨questions, hquestions, h⟩ := bind_eq_ok_iff.mp h
  obtain ⟨groups, hgroups, h⟩ := bind_eq_ok_iff.mp h
  obtain ⟨rfl, hne⟩ := unlessEmpty_eq_ok_iff.mp (mapError_eq_ok_iff.mp h)
  refine ⟨?_, hne⟩
  have hname : conversationId = row.name := by
    unfold BeamRow.conversation at hvalue
    unfold BeamRow.name
    split at hvalue
    · rename_i heq
      cases hvalue
      rw [heq]
      exact textOf_of_string hid
    · cases hvalue
  rw [BeamRow.groups, hquestions, List.flatMap_map, ← hname, List.flatMap]
  exact congrArg List.flatten (eq_map_of_mapM hgroups fun member cases hcases => beamCategory_spec hcases)

/-- **What is loaded of BEAM** are the cases of the groups of its rows, of each row one. -/
theorem loadBeamParquet_spec {table : List (BeamRow α)} {cases : List EvaluationCase}
    (h : loadBeamParquet table = .ok cases) :
    cases = (table.flatMap BeamRow.groups).flatMap BeamGroup.cases ∧
      ∀ row ∈ table, row.groups.flatMap BeamGroup.cases ≠ [] := by
  obtain ⟨loaded, hloaded, h⟩ := bind_eq_ok_iff.mp h
  obtain ⟨rfl, -⟩ := unlessEmpty_eq_ok_iff.mp (mapError_eq_ok_iff.mp h)
  constructor
  · rw [List.flatMap_assoc, eq_map_of_mapM hloaded fun row cases hcases => (normalizeBeamRow_spec hcases).1]
    rfl
  · intro row hrow
    obtain ⟨cases, -, hcases⟩ := exists_mem_of_forall₂ (forall₂_of_mapM hloaded) row hrow
    obtain ⟨rfl, hne⟩ := normalizeBeamRow_spec hcases
    exact hne

omit [Runtime] in
theorem nodup_questions {table : List (BeamRow α)} {group : BeamGroup}
    (h : group ∈ table.flatMap BeamRow.groups) : (group.questions.map Prod.fst).Nodup := by
  obtain ⟨row, -, hgroup⟩ := List.mem_flatMap.mp h
  obtain ⟨member, -, rfl⟩ := List.mem_map.mp hgroup
  have hasked : ∀ entries : List α, ((asked entries).map Prod.fst).Nodup := by
    intro entries
    rw [List.Nodup, List.pairwise_map, asked, List.pairwise_filterMap]
    refine (List.pairwise_map.mp (List.nodup_zipIdx_map_snd entries)).imp fun {entry other} hne => ?_
    intro question hquestion question' hquestion'
    obtain ⟨_, -, rfl⟩ := Option.map_eq_some_iff.mp hquestion
    obtain ⟨_, -, rfl⟩ := Option.map_eq_some_iff.mp hquestion'
    exact hne
  rw [List.map_map]
  exact hasked _

/-- The ids are apart if no two groups of one heading have a number in common: a numbered name
    gives away its number and its heading. -/
theorem strictCorpus_beam_iff {table : List (BeamRow α)} {cases : List EvaluationCase}
    (h : loadBeamParquet table = .ok cases) : StrictCorpus cases ↔ BeamContract table := by
  obtain ⟨rfl, hrows⟩ := loadBeamParquet_spec h
  -- an id is the heading and the number of the question, so ids differ if headings or numbers do
  have hnodup : ((((table.flatMap BeamRow.groups).flatMap BeamGroup.cases).map (·.caseId)).Nodup ↔
      (table.flatMap BeamRow.groups).Pairwise fun group other => group.heading = other.heading →
        (group.questions.map Prod.fst).Disjoint (other.questions.map Prod.fst)) := by
    have hids : (((table.flatMap BeamRow.groups).flatMap BeamGroup.cases).map (·.caseId)) =
        (table.flatMap BeamRow.groups).flatMap fun group =>
          (group.questions.map Prod.fst).map (numberedName group.heading) := by
      rw [List.map_flatMap]
      simp only [BeamGroup.cases, List.map_map]
      rfl
    rw [hids, nodup_flatMap_numberedName]
    exact and_iff_right fun group hgroup => nodup_questions hgroup
  have hname : ∀ row ∈ table, ∀ group ∈ row.groups, group.conversation = row.name := by
    intro row _ group hgroup
    obtain ⟨member, -, rfl⟩ := List.mem_map.mp hgroup
    rfl
  have hgroup : ∀ row ∈ table, ∀ group ∈ row.groups, group ∈ table.flatMap BeamRow.groups :=
    fun row hrow group hgroup => List.mem_flatMap_of_mem hrow hgroup
  constructor
  · intro hstrict
    have hcase : ∀ group ∈ table.flatMap BeamRow.groups, ∀ question ∈ group.questions,
        (group.case question).Strict :=
      fun group hgroup => List.forall_mem_map.mp (List.forall_mem_flatMap.mp hstrict.strict group hgroup)
    refine ⟨hnodup.mp hstrict.nodup, fun row hrow => ?_, fun group hgroup question hquestion => ?_⟩
    · -- the row has a question, and the case of it has the conversation in it
      obtain ⟨case, hmem⟩ := List.exists_mem_of_ne_nil _ (hrows row hrow)
      obtain ⟨group, hmem, hquestions⟩ := List.mem_flatMap.mp hmem
      obtain ⟨question, hquestion, -⟩ := List.mem_map.mp hquestions
      rw [← hname row hrow group hmem]
      exact (strict_case_iff.mp (hcase group (hgroup row hrow group hmem) question hquestion)).2.2
    · obtain ⟨hlength, hbounds, -⟩ := strict_case_iff.mp (hcase group hgroup question hquestion)
      exact ⟨hlength, hbounds⟩
  · refine fun hcontract => ⟨hnodup.mpr hcontract.apart, List.forall_mem_flatMap.mpr fun group hmem => ?_⟩
    obtain ⟨row, hrow, hmem'⟩ := List.mem_flatMap.mp hmem
    refine List.forall_mem_map.mpr fun question hquestion => strict_case_iff.mpr ?_
    obtain ⟨hlength, hbounds⟩ := hcontract.bounded group hmem question hquestion
    exact ⟨hlength, hbounds, hname row hrow group hmem' ▸ hcontract.named row hrow⟩

/-- **The cases of a public corpus are as strict as those of a normalized file exactly if** the input
    is as its contract says. -/
theorem strictCorpus_iff_contract {corpus : PublicCorpus α} {cases : List EvaluationCase}
    (h : corpus.load = .ok cases) : StrictCorpus cases ↔ corpus.Contract := by
  cases corpus with
  | locomo rows asOf => exact strictCorpus_locomo_iff (mapError_eq_ok_iff.mp h)
  | longmemeval rows => exact strictCorpus_longmemeval_iff (mapError_eq_ok_iff.mp h)
  | beam table => exact strictCorpus_beam_iff h

end Table

section

attribute [local instance] cpython

/-- The objects of a table whose columns are no strings, so that no literal is parsed. -/
@[reducible] def jsonObjects : Objects Json where
  truthy := Json.truthy
  string value := .ok value.toStr
  string?
    | .str s => some s
    | _ => none
  members
    | .obj fields => .ok (fields.map fun member => (.str member.1, member.2))
    | other => .error (.raised
        ⟨.attributeError, lit "'" ++ other.typeName ++ lit "' object has no attribute 'items'"⟩)
  elements value := value.items.mapError .raised
  question?
    | .obj fields => Json.item? fields "question"
    | _ => none
  literalEval _ := .error (.syntaxError "invalid syntax")

attribute [local instance] jsonObjects

/-- A table of one conversation with one question is loaded, and is as strict as its contract
    makes it. -/
theorem strictCorpus_iff_contract_here : ∃ (table : List (BeamRow Json)) (cases : List EvaluationCase),
    table = [⟨some (.str (lit "beam-1")), some (.obj
      [(lit "abstention", .list [.obj [(lit "question", .str (lit "Unknown?"))]])])⟩] ∧
    (PublicCorpus.beam table).load = .ok cases ∧
    (StrictCorpus cases ↔ (PublicCorpus.beam table).Contract) :=
  ⟨_, _, rfl, rfl, strictCorpus_iff_contract rfl⟩

/-- Each of the loaders returns what a normalized file could not have: a question that is no string,
    a question twice, and conversations whose ids and categories make for one id. -/
theorem loaded_unchecked :
    (∃ cases, loadLocomo (.list [.obj [(lit "qa", .list [.obj [(lit "question", .null)]])]])
      (Date.lit 9999 12 31) = .ok cases ∧ ¬ StrictCorpus cases) ∧
    (∃ cases, loadLongmemeval (.list (List.replicate 2 (.obj
      [(lit "question_id", .str (lit "q")), (lit "question_date", .str (lit "2025-04-03T10:00:00")),
        (lit "question", .str (lit "Where?"))]))) = .ok cases ∧ ¬ StrictCorpus cases) ∧
    ∃ cases, loadBeamParquet
      [(⟨some (.str (lit "1")), some (.obj
          [(lit "2:recall", .list [.obj [(lit "question", .str (lit "Which?"))]])])⟩ : BeamRow Json),
        ⟨some (.str (lit "1:2")), some (.obj
          [(lit "recall", .list [.obj [(lit "question", .str (lit "Where?"))]])])⟩] = .ok cases ∧
      ¬ StrictCorpus cases := by
  refine ⟨⟨_, rfl, fun h => ?_⟩, ⟨_, rfl, fun h => ?_⟩, ⟨_, rfl, fun h => ?_⟩⟩
  · obtain ⟨query, hquery, -⟩ := (h.strict _ List.mem_cons_self).query
    cases hquery
  · exact absurd h.nodup (by decide)
  · exact absurd h.nodup (by decide)

end

end AdversarialCognition.Corpus
