import AdversarialCognition.Lib.OneLine
import AdversarialCognition.Report.Build
import AdversarialCognition.Report.Coverage

/-!
# Which reports are bounded

The last thing `build_report` does is to refuse a report with a long string or a newline anywhere
in it. What an adapter prints gets into the report through the parser, which cuts the version, the
interface and the strings of the attestation to length and leaves newlines where they are, and
neither cuts the ids and receipts of the rows nor looks into them. So one adapter can suppress the
report of all: `survives_iff`. The text of an error cannot, whatever the adapter did to cause it.

## From the report back to what was printed

The check is followed downwards in three steps, each an equivalence. A report passes if its
entries do, given that the rest of it is bounded (`passes_assembleReport_iff`). An entry does if
the texts of its system are bounded and what it attests is (`bounded_asDict_iff`). And a system
has such texts if what came of its command is bounded (`bounded_executeExternal_iff`), which is a
condition on the payload, in terms of what is subscripted in it and never of what was read.

## How deep it goes

The walk calls itself, and the interpreter has room for so many calls (`Numerics.frames`). A
report has a fixed depth but for two parts that are passed on as they came: the values of an
attestation, and the inventory of the corpora. The first is up to the adapter and so is part of
the condition on its payload (`Attestable`); the second is the caller's and part of what is asked
of the context.

## Errors

The text of an exception from reading a payload is on one line, whatever the payload
(`raises_parseExternalOutcomes`): the parser's own messages are fixed texts, and what they quote
of a payload is quoted by `repr`, which escapes. With the text of a failed command this is not so,
and it is asked for.
-/

namespace AdversarialCognition.Report

open Py Py.Str Json

/-!
## The walk

What the check asks of a value, split into two questions: whether its texts are bounded, and how
many calls it takes to look at them. Both are read off the value part by part.
-/

section Walk

variable {s : Str} {items more : List (Str × Json)}

theorem boundedText_iff : boundedText s = true ↔ s.length ≤ 256 ∧ OneLine s := by
  rw [boundedText, Bool.and_eq_true, decide_eq_true_iff]
  simp [maxReportText, OneLine]

theorem boundedText_ofList {cs : List Char} (hlength : cs.length ≤ 256) (hline : '\n' ∉ cs) :
    boundedText (lit (String.ofList cs)) = true := by
  refine boundedText_iff.2 ⟨?_, oneLine_ofList hline⟩
  rw [length_lit, String.length_ofList]
  exact hlength

theorem boundedItems_iff {items : List Json} :
    boundedItems items = true ↔ ∀ item ∈ items, bounded item = true := by
  induction items with
  | nil => simp [boundedItems]
  | cons item items ih => simp [boundedItems, ih]

theorem boundedMembers_iff : boundedMembers items = true ↔
    ∀ item ∈ items, boundedText item.1 = true ∧ bounded item.2 = true := by
  induction items with
  | nil => simp [boundedMembers]
  | cons item items ih =>
    obtain ⟨key, value⟩ := item
    simp [boundedMembers, ih, and_assoc]

theorem boundedMembers_append :
    boundedMembers (items ++ more) = true ↔
      boundedMembers items = true ∧ boundedMembers more = true := by
  simp only [boundedMembers_iff, List.forall_mem_append]

theorem boundedMembers_cons {key : Str} {value : Json} (hkey : boundedText key = true) :
    boundedMembers ((key, value) :: items) = true ↔
      bounded value = true ∧ boundedMembers items = true := by
  simp [boundedMembers, hkey]

theorem boundedMembers_lit {cs : List Char} {value : Json} (hlength : cs.length ≤ 256)
    (hline : '\n' ∉ cs) : boundedMembers ((lit (String.ofList cs), value) :: items) = true ↔
      bounded value = true ∧ boundedMembers items = true :=
  boundedMembers_cons (boundedText_ofList hlength hline)

theorem boundedMembers_member? {key : String} {value : Option Json}
    (hkey : boundedText (lit key) = true) :
    boundedMembers (member? key value) = true ↔ ∀ v, value = some v → bounded v = true := by
  cases value with
  | none => simp [member?, boundedMembers]
  | some v => simp [member?, boundedMembers, hkey]

theorem bounded_strs_iff {l : List Str} :
    bounded (strs l) = true ↔ ∀ s ∈ l, boundedText s = true := by
  simp [strs, bounded, boundedItems_iff]

/-! How deep it goes. -/

variable {n : ℕ}

theorem callsMembers_le_iff : callsMembers items ≤ n ↔ ∀ item ∈ items, calls item.2 ≤ n := by
  induction items with
  | nil => simp [callsMembers]
  | cons item items ih =>
    obtain ⟨key, value⟩ := item
    simp [callsMembers, ih]

theorem callsItems_le_iff {items : List Json} :
    callsItems items ≤ n ↔ ∀ item ∈ items, calls item ≤ n := by
  induction items with
  | nil => simp [callsItems]
  | cons item items ih => simp [callsItems, ih]

theorem calls_obj_le_iff : calls (.obj items) ≤ n + 1 ↔ ∀ item ∈ items, calls item.2 ≤ n := by
  rw [calls, Nat.add_le_add_iff_right, callsMembers_le_iff]

theorem calls_list_le_iff {items : List Json} :
    calls (.list items) ≤ n + 1 ↔ ∀ item ∈ items, calls item ≤ n := by
  rw [calls, Nat.add_le_add_iff_right, callsItems_le_iff]

theorem forall_mem_member?_iff {P : Str × Json → Prop} {key : String} {value : Option Json} :
    (∀ item ∈ member? key value, P item) ↔ ∀ v, value = some v → P (lit key, v) := by
  cases value with
  | none => simp [member?]
  | some v => simp [member?]

theorem calls_strs_le (l : List Str) : calls (strs l) ≤ n + 2 := by
  rw [strs, calls_list_le_iff, List.forall_mem_map]
  exact fun _ _ => Nat.succ_le_succ (Nat.zero_le n)

end Walk

/-!
## Entries

An entry has texts of its own, those of its outcomes, and, of an agent loop, the attestation as it
was printed. Only the last can be deep.
-/

/-- The texts of an outcome. -/
structure CaseOutcome.Bounded (outcome : CaseOutcome) : Prop where
  caseId : boundedText outcome.caseId = true
  category : boundedText outcome.category = true
  returnedIds : ∀ id ∈ outcome.returnedIds, boundedText id = true
  receipt : boundedText outcome.receipt = true

/-- A value that stands in a report as the adapter printed it, five calls deep. -/
def Attestable [Numerics] (value : Json) : Prop :=
  bounded value = true ∧ calls value + 4 ≤ Numerics.frames

/-- The texts of a report that get into its entry, and the values. Of a system that was not
    executed, neither the outcomes nor the attestation do. -/
structure SystemReport.Bounded [Numerics] (report : SystemReport) : Prop where
  system : boundedText report.system = true
  adapterVersion : boundedText report.adapterVersion = true
  missingConfiguration : ∀ name ∈ report.missingConfiguration, boundedText name = true
  error : boundedText report.error = true
  interface : report.status = .executed → boundedText report.interface = true
  outcomes : report.status = .executed → ∀ outcome ∈ report.outcomes, outcome.Bounded
  harness : report.status = .executed → ∀ harness, report.harness = some harness →
    ∀ item ∈ harness.items, Attestable item.2

/-- A system that was not executed has no outcomes in its entry, and no attestation. -/
theorem bounded_of_not_executed [Numerics] {report : SystemReport} (h : report.status ≠ .executed)
    (hsystem : boundedText report.system = true)
    (hversion : boundedText report.adapterVersion = true)
    (hmissing : ∀ name ∈ report.missingConfiguration, boundedText name = true)
    (herror : boundedText report.error = true) : report.Bounded where
  system := hsystem
  adapterVersion := hversion
  missingConfiguration := hmissing
  error := herror
  interface := fun hexecuted => absurd hexecuted h
  outcomes := fun hexecuted => absurd hexecuted h
  harness := fun hexecuted => absurd hexecuted h

section Entries

variable [Numerics]

/-- An outcome prints its four texts and the ids, and no other text of its own. -/
theorem bounded_caseOutcome_iff {outcome : CaseOutcome} :
    bounded outcome.toJson = true ↔ outcome.Bounded := by
  have hkey : ∀ {cs : List Char}, cs.length ≤ 256 → '\n' ∉ cs →
      boundedText (lit (String.ofList cs)) = true := boundedText_ofList
  simp only [CaseOutcome.toJson, bounded]
  rw [boundedMembers_cons (hkey (by decide) (by decide)),
    boundedMembers_cons (hkey (by decide) (by decide)),
    boundedMembers_cons (hkey (by decide) (by decide)),
    boundedMembers_cons (hkey (by decide) (by decide)),
    boundedMembers_cons (hkey (by decide) (by decide)),
    boundedMembers_cons (hkey (by decide) (by decide)),
    boundedMembers_cons (hkey (by decide) (by decide)),
    boundedMembers_cons (hkey (by decide) (by decide)), bounded_strs_iff]
  simp only [bounded, boundedMembers, true_and, and_true]
  constructor
  · intro h
    exact ⟨h.1, h.2.1, h.2.2.1, h.2.2.2⟩
  · intro h
    exact ⟨h.1, h.2, h.3, h.4⟩

/-- The texts of an entry are those of its fields: its keys are bounded. -/
theorem bounded_entry_iff {entry : Entry} : bounded entry.toJson = true ↔
    boundedText entry.system = true ∧ boundedText entry.adapterVersion = true ∧
      (∀ names, entry.missingConfiguration = some names → ∀ name ∈ names, boundedText name = true) ∧
      (∀ error, entry.error = some error → boundedText error = true) ∧
      (∀ interface, entry.interface = some interface → boundedText interface = true) ∧
      (∀ cases, entry.cases = some cases → ∀ outcome ∈ cases, outcome.Bounded) ∧
      ∀ harness, entry.harness = some harness → bounded (.obj harness.items) = true := by
  have hkey : ∀ {cs : List Char}, cs.length ≤ 256 → '\n' ∉ cs →
      boundedText (lit (String.ofList cs)) = true := boundedText_ofList
  have hstatus : boundedText entry.status.text = true := by
    cases entry.status <;> exact hkey (by decide) (by decide)
  have htrack : ∀ track : BenchmarkTrack, boundedText track.text = true := by
    intro track
    cases track <;> exact hkey (by decide) (by decide)
  simp only [Entry.toJson, Entry.members, bounded]
  rw [boundedMembers_append, boundedMembers_append, boundedMembers_append, boundedMembers_append,
    boundedMembers_append, boundedMembers_append, boundedMembers_append,
    boundedMembers_member? (hkey (by decide) (by decide)),
    boundedMembers_member? (hkey (by decide) (by decide)),
    boundedMembers_member? (hkey (by decide) (by decide)),
    boundedMembers_member? (hkey (by decide) (by decide)),
    boundedMembers_member? (hkey (by decide) (by decide)),
    boundedMembers_member? (hkey (by decide) (by decide)),
    boundedMembers_member? (hkey (by decide) (by decide)),
    boundedMembers_cons (hkey (by decide) (by decide)),
    boundedMembers_cons (hkey (by decide) (by decide)),
    boundedMembers_cons (hkey (by decide) (by decide))]
  simp only [bounded, boundedMembers, hstatus, and_true, Option.map_eq_some_iff,
    forall_exists_index, and_imp, forall_apply_eq_imp_iff₂, bounded_strs_iff, boundedItems_iff,
    List.forall_mem_map, bounded_caseOutcome_iff, htrack, implies_true, and_assoc]

omit [Numerics] in
/-- The keys of a block are bounded, so it is a question of the values. -/
theorem bounded_harness_iff {harness : HarnessBlock} :
    bounded (.obj harness.items) = true ↔ ∀ item ∈ harness.items, bounded item.2 = true := by
  rw [bounded, boundedMembers_iff]
  refine forall₂_congr fun item hitem => and_iff_right ?_
  have hkey : item.1 ∈ harnessKeys.map lit := by
    rw [← harness.keys]
    exact List.mem_map_of_mem hitem
  obtain ⟨key, hmem, hname⟩ := List.mem_map.1 hkey
  have hkeys : ∀ key ∈ harnessKeys, boundedText (lit key) = true := by decide
  rw [← hname]
  exact hkeys key hmem

omit [Numerics] in
theorem forall_eq_some_ite_iff {α : Type} {c : Prop} [Decidable c] {a : α} {P : α → Prop} :
    (∀ b, (if c then some a else none) = some b → P b) ↔ (c → P a) := by
  by_cases h : c
  · simp [h]
  · simp [h]

/-- What it attests does not nest too deep. -/
def Entry.Shallow (entry : Entry) : Prop :=
  ∀ harness, entry.harness = some harness → ∀ item ∈ harness.items,
    calls item.2 + 4 ≤ Numerics.frames

/-- Only what the dictionary of a report holds counts. -/
theorem bounded_asDict_iff {report : SystemReport} :
    (bounded report.asDict.toJson = true ∧ report.asDict.Shallow) ↔ report.Bounded := by
  -- the harness is in the entry only if the system was executed
  have hharness : ∀ {P : Json → Prop}, (∀ harness, (if report.status = .executed then report.harness
      else none) = some harness → ∀ item ∈ harness.items, P item.2) ↔
      (report.status = .executed → ∀ harness, report.harness = some harness →
        ∀ item ∈ harness.items, P item.2) := by
    intro P
    by_cases h : report.status = .executed
    · simp [h]
    · simp [h]
  rw [bounded_entry_iff, Entry.Shallow]
  simp only [SystemReport.asDict, bounded_harness_iff, forall_eq_some_ite_iff,
    hharness (P := fun value => bounded value = true),
    hharness (P := fun value => calls value + 4 ≤ Numerics.frames)]
  constructor
  · intro h
    obtain ⟨⟨hsystem, hversion, hmissing, herror, hinterface, houtcomes, hblock⟩, hcalls⟩ := h
    refine ⟨hsystem, hversion, fun name hname => ?_, ?_, hinterface, houtcomes, ?_⟩
    · exact hmissing (List.ne_nil_of_mem hname) name hname
    · by_cases hnil : report.error = []
      · rw [hnil]
        rfl
      · exact herror hnil
    · intro hexecuted harness hsome item hitem
      exact ⟨hblock hexecuted harness hsome item hitem, hcalls hexecuted harness hsome item hitem⟩
  · intro h
    refine ⟨⟨h.system, h.adapterVersion, fun _ => h.missingConfiguration, fun _ => h.error,
      h.interface, h.outcomes, ?_⟩, ?_⟩
    · exact fun hexecuted harness hsome item hitem => (h.harness hexecuted harness hsome item hitem).1
    · exact fun hexecuted harness hsome item hitem => (h.harness hexecuted harness hsome item hitem).2

theorem bounded_stamp_iff {entry : Entry} :
    bounded entry.stamp.toJson = true ↔ bounded entry.toJson = true := by
  rw [bounded_entry_iff, bounded_entry_iff]
  rfl

theorem calls_caseOutcome_le (outcome : CaseOutcome) {n : ℕ} : calls outcome.toJson ≤ n + 3 := by
  rw [CaseOutcome.toJson, calls_obj_le_iff]
  have hplain : 1 ≤ n + 2 := by omega
  simp only [List.forall_mem_cons, calls_strs_le, true_and]
  exact ⟨hplain, hplain, hplain, hplain, hplain, hplain, hplain, List.forall_mem_nil _⟩

/-- Only what is attested goes deep. -/
theorem calls_entry_le_iff {entry : Entry} {n : ℕ} : calls entry.toJson ≤ n + 5 ↔
    ∀ harness, entry.harness = some harness → ∀ item ∈ harness.items, calls item.2 ≤ n + 3 := by
  have hplain : 1 ≤ n + 4 := by omega
  have hstr : ∀ s : Str, calls (.str s) ≤ n + 4 := fun _ => hplain
  have hint : ∀ k : ℤ, calls (.int k) ≤ n + 4 := fun _ => hplain
  have hstrs : ∀ l : List Str, calls (strs l) ≤ n + 4 := calls_strs_le
  have hcases : ∀ cases : List CaseOutcome, calls (.list (cases.map (·.toJson))) ≤ n + 4 := by
    intro cases
    rw [calls_list_le_iff, List.forall_mem_map]
    exact fun outcome _ => calls_caseOutcome_le outcome
  rw [Entry.toJson, calls_obj_le_iff]
  simp only [Entry.members, List.forall_mem_append, List.forall_mem_cons, forall_mem_member?_iff,
    Option.map_eq_some_iff, forall_exists_index, and_imp, forall_apply_eq_imp_iff₂, hstr, hint,
    hstrs, hcases, implies_true, List.not_mem_nil, false_implies, true_and, and_true,
    calls_obj_le_iff]

end Entries

/-!
## The rest of a report

All other parts of a report are computed from bounded ones, or come in with the context. So
whether a report passes is decided by its entries.
-/

/-- The texts of a context, and the inventory of its corpora. -/
structure ReportContext.Bounded [Numerics] (context : ReportContext) : Prop where
  benchmark : boundedText context.benchmark = true
  manifestDigest : boundedText context.manifestDigest = true
  metadata : ∀ item ∈ context.metadata, boundedText item.1 = true ∧ boundedText item.2 = true
  corpora : bounded (.obj context.corpora) = true
  inventory : calls (.obj context.corpora) + 1 ≤ Numerics.frames

section Report

variable [Numerics] {context : ReportContext} {systems : List SystemReport}

omit [Numerics] in
theorem mem_sorted {strings : List Str} {s : Str} : s ∈ sorted strings ↔ s ∈ strings :=
  (List.mergeSort_perm strings _).mem_iff

/-- What is computed of bounded outcomes is bounded: the names of categories, and floats. -/
theorem bounded_quality {outcomes : List CaseOutcome} (h : ∀ outcome ∈ outcomes, outcome.Bounded) :
    bounded (quality outcomes) = true := by
  have hkey : ∀ {cs : List Char}, cs.length ≤ 256 → '\n' ∉ cs →
      boundedText (lit (String.ofList cs)) = true := boundedText_ofList
  have hfloat : ∀ {c : Prop} [Decidable c] {s t : Str},
      bounded (if c then .float s else .float t) = true := by
    intro c _ s t
    split <;> rfl
  unfold quality
  simp only [bounded]
  rw [boundedMembers_cons (hkey (by decide) (by decide)),
    boundedMembers_cons (hkey (by decide) (by decide)),
    boundedMembers_cons (hkey (by decide) (by decide)),
    boundedMembers_cons (hkey (by decide) (by decide))]
  refine ⟨hfloat, rfl, ?_, hfloat, rfl⟩
  rw [bounded, boundedMembers_iff]
  intro item hitem
  obtain ⟨category, hcategory, rfl⟩ := List.mem_map.1 hitem
  rw [mem_sorted, List.mem_dedup] at hcategory
  obtain ⟨outcome, houtcome, rfl⟩ := List.mem_map.1 hcategory
  exact ⟨(h outcome (List.mem_of_mem_filter houtcome)).category, rfl⟩

theorem bounded_performance (context : ReportContext) (outcomes : List CaseOutcome) :
    bounded (performance context outcomes) = true := by
  have hkey : ∀ {cs : List Char}, cs.length ≤ 256 → '\n' ∉ cs →
      boundedText (lit (String.ofList cs)) = true := boundedText_ofList
  unfold performance
  simp only [bounded]
  rw [boundedMembers_cons (hkey (by decide) (by decide)),
    boundedMembers_cons (hkey (by decide) (by decide)),
    boundedMembers_cons (hkey (by decide) (by decide)),
    boundedMembers_cons (hkey (by decide) (by decide)),
    boundedMembers_cons (hkey (by decide) (by decide))]
  exact ⟨rfl, rfl, rfl, rfl, rfl, rfl⟩

/-- The texts of the entries, stamped or not. -/
def EntriesPlain (systems : List SystemReport) : Prop :=
  ∀ {name entry}, (systemEntries systems).get? name = some entry →
    boundedText name = true ∧ bounded entry.toJson = true

/-- The dictionary of the systems is bounded if the entries are. -/
theorem bounded_systems_iff : bounded (.obj ((assembleReport context systems).systems.items.map
      fun item => (item.1, item.2.toJson))) = true ↔ EntriesPlain systems := by
  rw [bounded, boundedMembers_iff, List.forall_mem_map]
  have hitems : ∀ entries : Dict Str Entry,
      (∀ item ∈ entries.items, boundedText item.1 = true ∧ bounded item.2.toJson = true) ↔
        ∀ {name entry}, entries.get? name = some entry →
          boundedText name = true ∧ bounded entry.toJson = true := by
    intro entries
    constructor
    · intro h name entry hget
      exact h (name, entry) (Dict.mem_items_iff.2 hget)
    · intro h item hitem
      exact h (Dict.mem_items_iff.1 hitem)
  -- version 2 stamps the track into each executed entry, which changes nothing here
  by_cases hversion : context.benchmark = benchmarkV2
  · simp only [assembleReport, hversion, if_true]
    rw [hitems, EntriesPlain]
    simp only [get?_stamped, Option.map_eq_some_iff, forall_exists_index, and_imp]
    have hstamped : ∀ entry : Entry,
        bounded (if entry.status = .executed then entry.stamp else entry).toJson = true ↔
          bounded entry.toJson = true := by
      intro entry
      split
      · exact bounded_stamp_iff
      · exact Iff.rfl
    constructor
    · intro h name entry hget
      have hentry := h entry hget rfl
      exact ⟨hentry.1, (hstamped entry).1 hentry.2⟩
    · intro h name _ entry hget heq
      rw [← heq, hstamped]
      exact h hget
  · simp only [assembleReport, hversion, if_false]
    exact hitems _

theorem get?_of_mem_group {groups : List (BenchmarkTrack × List Str)}
    {group : BenchmarkTrack × List Str} {name : Str}
    (hgroups : (assembleReport context systems).tracks = some groups) (hgroup : group ∈ groups)
    (hname : name ∈ group.2) : ∃ entry, (systemEntries systems).get? name = some entry := by
  simp only [assembleReport] at hgroups
  split at hgroups
  · obtain rfl := Option.some.inj hgroups
    obtain ⟨track, -, rfl⟩ := List.mem_map.1 hgroup
    obtain ⟨item, hitem, rfl⟩ := List.mem_map.1 hname
    have hget := Dict.mem_items_iff.1 (List.mem_of_mem_filter hitem)
    rw [get?_stamped, Option.map_eq_some_iff] at hget
    obtain ⟨entry, hentry, -⟩ := hget
    exact ⟨entry, hentry⟩
  · cases hgroups

/-- All texts of a report but those of its entries are bounded by what is assumed. -/
theorem bounded_assembleReport_iff (hcontext : context.Bounded)
    (hreference : ∀ outcome ∈ referenceOutcomes systems, outcome.Bounded) :
    bounded (assembleReport context systems).toJson = true ↔ EntriesPlain systems := by
  -- all members but the systems are bounded in any case
  have hkey : ∀ {cs : List Char}, cs.length ≤ 256 → '\n' ∉ cs →
      boundedText (lit (String.ofList cs)) = true := boundedText_ofList
  have hgate : ∀ gate : Gate, boundedText gate.name = true := by
    intro gate
    cases gate <;> exact hkey (by decide) (by decide)
  have hstatus : boundedText (assembleReport context systems).status.text = true := by
    cases (assembleReport context systems).status <;> exact hkey (by decide) (by decide)
  have hmetadata : bounded (.obj (context.metadata.map fun item => (item.1, .str item.2))) =
      true := by
    rw [bounded, boundedMembers_iff, List.forall_mem_map]
    exact hcontext.metadata
  have hgates : bounded (.obj (gates.map fun gate =>
      (gate.name, .int ((assembleReport context systems).hardGates gate)))) = true := by
    rw [bounded, boundedMembers_iff, List.forall_mem_map]
    exact fun gate _ => ⟨hgate gate, rfl⟩
  have hcases : bounded (.list ((referenceOutcomes systems).map (·.toJson))) = true := by
    rw [bounded, boundedItems_iff, List.forall_mem_map]
    exact fun outcome houtcome => bounded_caseOutcome_iff.2 (hreference outcome houtcome)
  have hquality : bounded (assembleReport context systems).quality = true := by
    simp only [assembleReport]
    split
    · exact bounded_quality hreference
    · rfl
  have hperformance : bounded (assembleReport context systems).performance = true := by
    simp only [assembleReport]
    split
    · exact bounded_performance context _
    · rfl
  -- the groups have the names of entries in them
  have hgroups : EntriesPlain systems → ∀ groups,
      (assembleReport context systems).tracks = some groups →
        bounded (.obj (groups.map fun group => (group.1.text, strs group.2))) = true := by
    intro hentries groups hgroups
    rw [bounded, boundedMembers_iff, List.forall_mem_map]
    intro group hgroup
    have htrack : boundedText group.1.text = true := by
      cases group.1 <;> exact hkey (by decide) (by decide)
    refine ⟨htrack, bounded_strs_iff.2 fun name hname => ?_⟩
    obtain ⟨entry, hentry⟩ := get?_of_mem_group hgroups hgroup hname
    exact (hentries hentry).1
  have hsystems : bounded (.obj ((assembleReport context systems).systems.items.map
      fun item => (item.1, item.2.toJson))) = true ↔ EntriesPlain systems := bounded_systems_iff
  rw [← hsystems]
  unfold BenchmarkReport.toJson
  rw [bounded, boundedMembers_append, boundedMembers_member? (hkey (by decide) (by decide)),
    boundedMembers_cons (hkey (by decide) (by decide)),
    boundedMembers_cons (hkey (by decide) (by decide)),
    boundedMembers_cons (hkey (by decide) (by decide)),
    boundedMembers_cons (hkey (by decide) (by decide)),
    boundedMembers_cons (hkey (by decide) (by decide)),
    boundedMembers_cons (hkey (by decide) (by decide)),
    boundedMembers_cons (hkey (by decide) (by decide)),
    boundedMembers_cons (hkey (by decide) (by decide)),
    boundedMembers_cons (hkey (by decide) (by decide)),
    boundedMembers_cons (hkey (by decide) (by decide))]
  constructor
  · intro h
    exact h.1.2.2.2.2.2.1
  · intro hsystems
    refine ⟨⟨hcontext.benchmark, hcontext.manifestDigest, hstatus, hmetadata, hgates, hsystems,
      hcases, hquality, hperformance, hcontext.corpora, rfl⟩, fun v hv => ?_⟩
    obtain ⟨groups, htracks, rfl⟩ := Option.map_eq_some_iff.1 hv
    exact hgroups (bounded_systems_iff.1 hsystems) groups htracks

theorem calls_quality_le (outcomes : List CaseOutcome) {n : ℕ} : calls (quality outcomes) ≤ n + 3 := by
  have hfloat : ∀ {c : Prop} [Decidable c] {s t : Str},
      calls (if c then .float s else .float t) ≤ n + 2 := by
    intro c _ s t
    split <;> exact Nat.succ_le_succ (Nat.zero_le _)
  have hcategories : ∀ (names : List Str) (f : Str → Str),
      calls (.obj (names.map fun name => (name, .float (f name)))) ≤ n + 2 := by
    intro names f
    rw [calls_obj_le_iff, List.forall_mem_map]
    exact fun _ _ => Nat.succ_le_succ (Nat.zero_le n)
  unfold quality accuracy
  rw [calls_obj_le_iff]
  simp only [List.forall_mem_cons, hfloat, hcategories, true_and]
  exact ⟨Nat.succ_le_succ (Nat.zero_le _), List.forall_mem_nil _⟩

theorem calls_performance_le (context : ReportContext) (outcomes : List CaseOutcome) {n : ℕ} :
    calls (performance context outcomes) ≤ n + 2 := by
  have hplain : 1 ≤ n + 1 := Nat.succ_le_succ (Nat.zero_le n)
  rw [performance, calls_obj_le_iff]
  simp only [List.forall_mem_cons]
  exact ⟨hplain, hplain, hplain, hplain, hplain, List.forall_mem_nil _⟩

/-- The entries, with what they attest: what decides whether there is a report. -/
def EntriesBounded (systems : List SystemReport) : Prop :=
  ∀ {name entry}, (systemEntries systems).get? name = some entry →
    boundedText name = true ∧ bounded entry.toJson = true ∧ entry.Shallow

/-- An entry is as deep in a report as it would be without its stamp. -/
theorem shallow_systems_iff : (∀ item ∈ (assembleReport context systems).systems.items,
    item.2.Shallow) ↔ ∀ name entry, (systemEntries systems).get? name = some entry →
      entry.Shallow := by
  have hitems : ∀ entries : Dict Str Entry, (∀ item ∈ entries.items, item.2.Shallow) ↔
      ∀ name entry, entries.get? name = some entry → entry.Shallow := by
    intro entries
    simp only [Prod.forall, Dict.mem_items_iff]
  by_cases hversion : context.benchmark = benchmarkV2
  · simp only [assembleReport, hversion, if_true]
    rw [hitems]
    simp only [get?_stamped, Option.map_eq_some_iff, forall_exists_index, and_imp]
    have hstamped : ∀ entry : Entry,
        (if entry.status = .executed then entry.stamp else entry).Shallow ↔ entry.Shallow := by
      intro entry
      split <;> exact Iff.rfl
    constructor
    · intro h name entry hget
      exact (hstamped entry).1 (h name _ entry hget rfl)
    · intro h name _ entry hget heq
      rw [← heq, hstamped]
      exact h name entry hget
  · simp only [assembleReport, hversion, if_false]
    exact hitems _

theorem calls_assembleReport_le_iff (hcontext : context.Bounded) :
    calls (assembleReport context systems).toJson ≤ Numerics.frames ↔
      ∀ name entry, (systemEntries systems).get? name = some entry → entry.Shallow := by
  obtain ⟨n, hframes⟩ : ∃ n, Numerics.frames = n + 7 :=
    ⟨Numerics.frames - 7, by have := Numerics.roomy; omega⟩
  -- each member leaves one call less than the report; only the systems can need more
  have hplain : 1 ≤ n + 6 := by omega
  have hstr : ∀ s : Str, calls (.str s) ≤ n + 6 := fun _ => hplain
  have hmetadata : calls (.obj ((assembleReport context systems).metadata.map
      fun item => (item.1, .str item.2))) ≤ n + 6 := by
    rw [calls_obj_le_iff, List.forall_mem_map]
    exact fun _ _ => Nat.succ_le_succ (Nat.zero_le _)
  have hgates : calls (.obj (gates.map fun gate =>
      (gate.name, .int ((assembleReport context systems).hardGates gate)))) ≤ n + 6 := by
    rw [calls_obj_le_iff, List.forall_mem_map]
    exact fun _ _ => Nat.succ_le_succ (Nat.zero_le _)
  have hcases : calls (.list ((assembleReport context systems).cases.map (·.toJson))) ≤ n + 6 := by
    rw [calls_list_le_iff, List.forall_mem_map]
    exact fun outcome _ => calls_caseOutcome_le outcome
  have hquality : calls (assembleReport context systems).quality ≤ n + 6 := by
    simp only [assembleReport]
    split
    · exact calls_quality_le _
    · exact hplain
  have hperformance : calls (assembleReport context systems).performance ≤ n + 6 := by
    simp only [assembleReport]
    split
    · exact calls_performance_le _ _
    · exact hplain
  have hcorpora : calls (.obj (assembleReport context systems).publicCorpora) ≤ n + 6 := by
    have h := hcontext.inventory
    rw [hframes] at h
    exact Nat.le_of_succ_le_succ h
  have hgroups : ∀ groups, (assembleReport context systems).tracks = some groups →
      ∀ group ∈ groups, calls (strs group.2) ≤ n + 5 :=
    fun groups _ group _ => calls_strs_le group.2
  have hentry : ∀ entry : Entry, calls entry.toJson ≤ n + 5 ↔ entry.Shallow := by
    intro entry
    rw [calls_entry_le_iff, Entry.Shallow, hframes]
    refine forall₂_congr fun harness _ => forall₂_congr fun item _ => ?_
    omega
  rw [← shallow_systems_iff, hframes, BenchmarkReport.toJson, calls_obj_le_iff]
  simp only [List.forall_mem_append, List.forall_mem_cons, forall_mem_member?_iff,
    Option.map_eq_some_iff, forall_exists_index, and_imp, forall_apply_eq_imp_iff₂, hstr, hmetadata,
    hgates, hcases, hquality, hperformance, hcorpora, true_and, List.not_mem_nil, false_implies,
    implies_true, and_true, calls_obj_le_iff (n := n + 5), List.forall_mem_map, hentry]
  exact and_iff_left hgroups

/-- **A report passes if its context is bounded, its reference and its entries.** -/
theorem passes_assembleReport_iff (hcontext : context.Bounded)
    (hreference : ∀ outcome ∈ referenceOutcomes systems, outcome.Bounded) :
    passes (assembleReport context systems).toJson = true ↔ EntriesBounded systems := by
  rw [passes, Bool.and_eq_true, decide_eq_true_iff, bounded_assembleReport_iff hcontext hreference,
    calls_assembleReport_le_iff hcontext]
  constructor
  · intro h name entry hget
    exact ⟨(h.1 hget).1, (h.1 hget).2, h.2 name entry hget⟩
  · intro h
    exact ⟨fun hget => ⟨(h hget).1, (h hget).2.1⟩, fun name entry hget => (h hget).2.2⟩

end Report

/-!
## Errors

Whatever is raised while a payload is read has a text on one line, by the rules of `Raises` along
the parser.
-/

section Errors

variable [Runtime]

theorem raises_parseHarness (parsed : Json) (interface : Str) (benchmarkVersion : ℕ) :
    Raises PlainError (parseHarness parsed interface benchmarkVersion) := by
  refine (raises_getOr _ _ _).bind fun harness => raises_ite (raises_ok _) (raises_ite (raises_ok _) ?_)
  cases harness with
  | obj items =>
    refine raises_ite (raises_error ?_) (raises_ok _)
    have hkeys := oneLine_repr_strs ((missingKeys items).map lit)
    rw [List.map_map] at hkeys
    exact oneLine_append.2 ⟨oneLine_ofList (by decide), hkeys⟩
  | _ => exact raises_literal _ (by decide)

theorem raises_parseHeader (parsed : Json) (benchmarkVersion : ℕ) :
    Raises PlainError (parseHeader parsed benchmarkVersion) := by
  refine (raises_getOr _ _ _).bind fun version => raises_ite (raises_literal _ (by decide)) ?_
  exact (raises_getOr _ _ _).bind fun interface =>
    (raises_parseHarness _ _ _).bind fun harness => raises_ok _

theorem raises_rowTable (rows : List Json) : Raises PlainError (rowTable rows) := by
  refine raises_foldlM (fun table row => ?_) rows _
  refine (raises_subscript _ _).bind fun id => ?_
  cases id with
  | list items => exact raises_literal _ (by decide)
  | obj items => exact raises_literal _ (by decide)
  | _ => exact raises_ok _

variable [Numerics]

theorem raises_outcome (table : RowTable) (case : SuiteCase) :
    Raises PlainError (table.outcome case) := by
  unfold RowTable.outcome
  split
  · refine (raises_subscript _ _).bind fun correct => (raises_subscript _ _).bind fun allowed =>
      (raises_getOr _ _ _).bind fun ids => (raises_items _).bind fun ids =>
        (raises_getOr _ _ _).bind fun receipt => (raises_getOr _ _ _).bind fun latency =>
          (raises_toFloat _).bind fun latency => (raises_getOr _ _ _).bind fun supported =>
            raises_ok _
  · exact raises_error (oneLine_repr _)

theorem raises_parseRows (parsed : Json) (suite : List SuiteCase) :
    Raises PlainError (parseRows parsed suite) := by
  refine (raises_subscript _ _).bind fun rows => (raises_items _).bind fun rows =>
    (raises_rowTable rows).bind fun table => raises_ite (raises_literal _ (by decide)) ?_
  exact raises_mapM (raises_outcome table) suite

/-- **Whatever an adapter prints, the error it gets is on one line.** -/
theorem raises_parseExternalOutcomes (payload : Str) (suite : List SuiteCase)
    (benchmarkVersion : ℕ) :
    Raises PlainError (parseExternalOutcomes payload suite benchmarkVersion) :=
  (raises_parse payload).bind fun parsed => (raises_parseHeader parsed benchmarkVersion).bind
    fun _ => (raises_parseRows parsed suite).bind fun _ => raises_ok _

end Errors

/-!
## What an adapter may print

The condition on a payload, on what stands in it: the version, the interface and the attestation
of the header, as far as they are kept, and the ids and the receipt of each row that is read.
-/

section Conditions

variable [Runtime]

/-- The ids and the receipt of a row, as they are read. -/
structure RowBounded (row : Json) : Prop where
  returnedIds : ∀ value ids, row.getOr "returned_ids" (.list []) = .ok value →
    value.items = .ok ids → ∀ id ∈ ids, boundedText id.toStr = true
  receipt : ∀ value, row.getOr "receipt" (.str []) = .ok value → boundedText value.toStr = true

variable [Numerics]

/-- What is cut to length is free of newlines, and what is not cut is bounded. -/
structure HeaderBounded (benchmarkVersion : ℕ) (parsed : Json) : Prop where
  version : ∀ value, parsed.getOr "adapter_version" (.str adapterProtocol) = .ok value →
    OneLine (value.toStr.take 64)
  interface : ∀ value, parsed.getOr "interface" (.str (lit "direct-api")) = .ok value →
    OneLine (value.toStr.take 32)
  harness : 2 ≤ benchmarkVersion → ∀ value items,
    parsed.getOr "interface" (.str (lit "direct-api")) = .ok value →
      value.toStr.take 32 = lit "agent-loop" → parsed.getOr "harness" .null = .ok (.obj items) →
        ∀ key ∈ harnessKeys, Attestable (boundHarnessValue (Json.lookup items key .null))

omit [Numerics] in
/-- The rows that are read are bounded. -/
def RowsBounded (suite : List SuiteCase) (parsed : Json) : Prop :=
  ∀ value rows, parsed.subscript "cases" = .ok value → value.items = .ok rows →
    ∀ case ∈ suite, ∀ row, (rowsOf case.caseId rows).getLast? = some row → RowBounded row

/-- Everything of a payload that gets into a report is bounded. -/
def PayloadBounded (suite : List SuiteCase) (benchmarkVersion : ℕ) (parsed : Json) : Prop :=
  HeaderBounded benchmarkVersion parsed ∧ RowsBounded suite parsed

/-- What comes of a command cannot suppress the report: the timeout is an integer; a payload that is
    accepted is bounded; the text of an exception is on one line unless the adapter's last words
    replace it; and an adapter that ran out of time had no last words. -/
def RunBounded (suite : List SuiteCase) (benchmarkVersion : ℕ) : AdapterRun → Prop
  | .unconfigured => True
  | .badTimeout _ => False
  | .failed text (.text stderr) => stderr.strip ≠ [] ∨ OneLine (text.take maxErrorChars)
  | .failed text (.bytes stderr) =>
      stderr.all isSpaceByte = true ∧ OneLine (text.take maxErrorChars)
  | .printed stdout => ∀ parsed, Json.parse stdout = .ok parsed →
      (∃ found, parseExternalOutcomes stdout suite benchmarkVersion = .ok found) →
        PayloadBounded suite benchmarkVersion parsed

/-!
## What of it gets into the report

From the payload to the entry. A row that is replaced by a later one gets nowhere, so the
condition is on the last row of each case.
-/

variable {suite : List SuiteCase} {benchmarkVersion : ℕ}

omit [Numerics] in
theorem rowId?_eq_some_iff {row : Json} {id : Str} :
    rowId? row = some id ↔ row.subscript "case_id" = .ok (.str id) := by
  refine ⟨fun h => ?_, rowId?_of_subscript⟩
  cases row with
  | obj items =>
    unfold rowId? at h
    dsimp only at h
    split at h
    · rename_i found hitem
      cases h
      simp only [Json.subscript, hitem]
    · cases h
  | _ => cases h

omit [Numerics] in
theorem get?_insert {table table' : RowTable} {row : Json} (h : table.insert row = .ok table')
    (id : Str) : table'.byId.get? id =
      if rowId? row = some id then some row else table.byId.get? id := by
  obtain ⟨value, hvalue, h⟩ := bind_eq_ok_iff.1 h
  have hid : rowId? row = some id ↔ value = .str id := by
    rw [rowId?_eq_some_iff, hvalue, Except.ok.injEq]
  cases value with
  | str name =>
    cases h
    rw [Json.str.injEq] at hid
    simp only [Dict.get?_set, hid, eq_comm (a := id)]
  | list _ => cases h
  | obj _ => cases h
  | _ =>
    cases h
    simp [hid]

omit [Numerics] in
/-- Whatever the rows are, the last one with an id is the one that stays. -/
theorem get?_rowTable {rows : List Json} {table : RowTable} (h : rowTable rows = .ok table)
    (id : Str) : table.byId.get? id = (rowsOf id rows).getLast? := by
  have hloop : ∀ (rows : List Json) (table final : RowTable),
      rows.foldlM RowTable.insert table = .ok final →
        final.byId.get? id = (rowsOf id rows).getLast?.or (table.byId.get? id) := by
    intro rows
    induction rows with
    | nil =>
      intro table final h
      cases h
      rfl
    | cons row rows ih =>
      intro table final h
      rw [List.foldlM_cons] at h
      obtain ⟨next, hnext, h⟩ := bind_eq_ok_iff.1 h
      rw [ih next final h, get?_insert hnext, rowsOf_cons]
      by_cases hid : rowId? row = some id
      · rw [if_pos hid, if_pos hid, List.getLast?_cons]
        cases (rowsOf id rows).getLast? <;> rfl
      · rw [if_neg hid, if_neg hid]
  rw [hloop rows _ _ h, Dict.get?_empty, Option.or_none]

theorem readFromLast_of_parseRows {parsed : Json} {outcomes : List CaseOutcome}
    (h : parseRows parsed suite = .ok outcomes) :
    ∃ value rows, parsed.subscript "cases" = .ok value ∧ value.items = .ok rows ∧
      List.Forall₂ (ReadFromLast rows) suite outcomes := by
  obtain ⟨value, hvalue, h⟩ := bind_eq_ok_iff.1 h
  obtain ⟨rows, hrows, h⟩ := bind_eq_ok_iff.1 h
  obtain ⟨table, htable, h⟩ := bind_eq_ok_iff.1 h
  obtain ⟨-, h⟩ := ite_throw_eq_ok_iff.1 h
  refine ⟨value, rows, hvalue, hrows, (forall₂_of_mapM h).imp fun case outcome houtcome => ?_⟩
  unfold RowTable.outcome at houtcome
  rw [get?_rowTable htable] at houtcome
  split at houtcome
  · rename_i row hrow
    exact ⟨row, hrow, houtcome⟩
  · cases houtcome

theorem bounded_outcomeOf_iff {case : SuiteCase} {row : Json} {outcome : CaseOutcome}
    (hid : boundedText case.caseId = true) (hcategory : boundedText case.category = true)
    (h : outcomeOf case row = .ok outcome) : outcome.Bounded ↔ RowBounded row := by
  obtain ⟨correct, -, h⟩ := bind_eq_ok_iff.1 h
  obtain ⟨allowed, -, h⟩ := bind_eq_ok_iff.1 h
  obtain ⟨value, hvalue, h⟩ := bind_eq_ok_iff.1 h
  obtain ⟨ids, hids, h⟩ := bind_eq_ok_iff.1 h
  obtain ⟨receipt, hreceipt, h⟩ := bind_eq_ok_iff.1 h
  obtain ⟨number, -, h⟩ := bind_eq_ok_iff.1 h
  obtain ⟨latency, -, h⟩ := bind_eq_ok_iff.1 h
  obtain ⟨supported, -, h⟩ := bind_eq_ok_iff.1 h
  cases h
  constructor
  · intro h
    refine ⟨fun value' ids' hvalue' hids' id hid => ?_, fun receipt' hreceipt' => ?_⟩
    · rw [hvalue] at hvalue'
      cases hvalue'
      rw [hids] at hids'
      cases hids'
      exact h.returnedIds _ (List.mem_map_of_mem hid)
    · rw [hreceipt] at hreceipt'
      cases hreceipt'
      exact h.receipt
  · intro h
    refine ⟨hid, hcategory, ?_, h.receipt receipt hreceipt⟩
    exact List.forall_mem_map.2 (h.returnedIds value ids hvalue hids)

/-- The texts of a suite. -/
def SuiteBounded (suite : List SuiteCase) : Prop :=
  ∀ case ∈ suite, boundedText case.caseId = true ∧ boundedText case.category = true

omit [Runtime] [Numerics] in
theorem boundedText_adapterProtocol : boundedText adapterProtocol = true :=
  boundedText_ofList (by decide) (by decide)

omit [Runtime] [Numerics] in
/-- A cut text is bounded unless a newline is left in it. -/
theorem boundedText_take_iff {s : Str} {n : ℕ} (hn : n ≤ 256) :
    boundedText (s.take n) = true ↔ OneLine (s.take n) := by
  rw [boundedText_iff]
  exact and_iff_right ((List.length_take_le n s).trans hn)

theorem bounded_parseHeader_iff {parsed : Json} {version interface : Str}
    {block : Option HarnessBlock}
    (h : parseHeader parsed benchmarkVersion = .ok (version, interface, block)) :
    (boundedText version = true ∧ boundedText interface = true ∧
      ∀ harness, block = some harness → ∀ item ∈ harness.items, Attestable item.2) ↔
      HeaderBounded benchmarkVersion parsed := by
  obtain ⟨versionValue, interfaceValue, hversion, hinterface, rfl, hcut, hharness⟩ :=
    parseHeader_cases h
  -- the block is kept only of an agent loop, from version 2 on
  have hblock : (∀ harness, block = some harness → ∀ item ∈ harness.items,
      Attestable item.2) ↔ (2 ≤ benchmarkVersion → ∀ items,
        interfaceValue.toStr.take 32 = lit "agent-loop" →
          parsed.getOr "harness" .null = .ok (.obj items) → ∀ key ∈ harnessKeys,
            Attestable (boundHarnessValue (Json.lookup items key .null))) := by
    rw [← hcut]
    rcases parseHarness_cases hharness with ⟨rfl, hnot⟩ | ⟨items, hitems, htwo, hloop, rfl⟩
    · exact iff_of_true (fun _ h => nomatch h) fun htwo _ hloop => absurd ⟨htwo, hloop⟩ hnot
    · simp only [Option.some.injEq, forall_eq', hitems, Except.ok.injEq, Json.obj.injEq, htwo,
        forall_const, keepHarness, List.forall_mem_map]
      exact ⟨fun h other _ heq => heq ▸ h, fun h => h items hloop rfl⟩
  rw [hblock, hcut, boundedText_take_iff (by decide), boundedText_take_iff (by decide)]
  constructor
  · intro h
    refine ⟨fun value hvalue => ?_, fun value hvalue => ?_, fun htwo value items hvalue => ?_⟩
    · rw [hversion] at hvalue
      cases hvalue
      exact h.1
    · rw [hinterface] at hvalue
      cases hvalue
      exact h.2.1
    · rw [hinterface] at hvalue
      cases hvalue
      exact h.2.2 htwo items
  · intro h
    exact ⟨h.version _ hversion, h.interface _ hinterface,
      fun htwo items => h.harness htwo _ items hinterface⟩

theorem bounded_parseRows_iff (hsuite : SuiteBounded suite) {parsed : Json}
    {outcomes : List CaseOutcome} (h : parseRows parsed suite = .ok outcomes) :
    (∀ outcome ∈ outcomes, outcome.Bounded) ↔ RowsBounded suite parsed := by
  obtain ⟨value, rows, hvalue, hitems, hall⟩ := readFromLast_of_parseRows h
  have houtcomes : (∀ outcome ∈ outcomes, outcome.Bounded) ↔
      ∀ case ∈ suite, ∀ row, (rowsOf case.caseId rows).getLast? = some row → RowBounded row := by
    refine forall_mem_iff_of_forall₂ hall fun case hcase outcome hread => ?_
    obtain ⟨row, hrow, houtcome⟩ := hread
    rw [bounded_outcomeOf_iff (hsuite case hcase).1 (hsuite case hcase).2 houtcome, hrow]
    simp
  rw [houtcomes]
  refine ⟨fun h value' rows' hvalue' hitems' => ?_, fun h => h value rows hvalue hitems⟩
  rw [hvalue] at hvalue'
  cases hvalue'
  rw [hitems] at hitems'
  cases hitems'
  exact h

omit [Runtime] in
/-- An error is cut to length, so a newline is all that can be wrong with it. -/
theorem bounded_errorReport_iff {system message : Str} (hsystem : boundedText system = true) :
    (errorReport system message).Bounded ↔ OneLine (message.take maxErrorChars) := by
  rw [← boundedText_take_iff (show maxErrorChars ≤ 256 from le_rfl)]
  constructor
  · intro h
    exact h.error
  · intro h
    exact bounded_of_not_executed (by simp [errorReport]) hsystem boundedText_adapterProtocol
      (List.forall_mem_nil _) h

theorem failureText_spec (text : Str) (stderr : LastWords) :
    (∃ message, failureText text stderr = .ok message ∧ OneLine (message.take maxErrorChars)) ↔
      RunBounded suite benchmarkVersion (.failed text stderr) := by
  cases stderr with
  | text stderr =>
    rw [failureText, RunBounded]
    by_cases hstderr : stderr.strip = []
    · simp [hstderr]
    · rw [if_pos hstderr]
      refine iff_of_true ⟨_, rfl, OneLine.take (fun hmem => ?_) _⟩ (.inl hstderr)
      obtain ⟨c, -, hc⟩ := List.mem_map.1 hmem
      split at hc
      · exact absurd hc (by decide)
      · rename_i hne
        exact hne hc
  | bytes stderr =>
    rw [failureText, RunBounded]
    by_cases hblank : stderr.all isSpaceByte = true
    · simp [hblank]
    · simp [hblank]

/-- **What comes of a command is in the report as far as it is bounded.** -/
theorem bounded_executeExternal_iff (hsuite : SuiteBounded suite) {system commandVariable : Str}
    (hsystem : boundedText system = true) (hvariable : boundedText commandVariable = true)
    (run : AdapterRun) :
    (∃ report, executeExternal system commandVariable suite benchmarkVersion run = .ok report ∧
      report.Bounded) ↔ RunBounded suite benchmarkVersion run := by
  cases run with
  | unconfigured =>
    refine iff_of_true ⟨_, rfl, bounded_of_not_executed (by simp [unavailableReport]) hsystem
      boundedText_adapterProtocol (List.forall_mem_singleton.2 hvariable) rfl⟩ trivial
  | badTimeout error =>
    refine iff_of_false (fun h => ?_) id
    obtain ⟨report, h, -⟩ := h
    cases h
  -- the last words of the adapter are put on one line, and the text of the exception is not
  | failed text stderr =>
    rw [← failureText_spec]
    simp only [executeExternal, bind_eq_ok_iff]
    constructor
    · rintro ⟨report, ⟨message, hmessage, heq⟩, hbounded⟩
      cases heq
      exact ⟨message, hmessage, (bounded_errorReport_iff hsystem).1 hbounded⟩
    · rintro ⟨message, hmessage, hline⟩
      exact ⟨_, ⟨message, hmessage, rfl⟩, (bounded_errorReport_iff hsystem).2 hline⟩
  -- a payload that is refused is an error on one line, and one that is accepted is bounded by its
  -- two parts
  | printed stdout =>
    cases hparse : parseExternalOutcomes stdout suite benchmarkVersion with
    | error e =>
      simp only [executeExternal, hparse, Except.ok.injEq, exists_eq_left',
        bounded_errorReport_iff hsystem]
      have hplain : OneLine e.text := raises_parseExternalOutcomes stdout suite benchmarkVersion e hparse
      refine iff_of_true (hplain.take _) fun parsed _ hfound => ?_
      rw [hparse] at hfound
      obtain ⟨found, hfound⟩ := hfound
      cases hfound
    | ok found =>
      obtain ⟨parsed, hparsed, hheader, hrows⟩ := parseExternalOutcomes_cases hparse
      have hrun : RunBounded suite benchmarkVersion (.printed stdout) ↔
          PayloadBounded suite benchmarkVersion parsed := by
        simp only [RunBounded, hparsed, hparse, Except.ok.injEq, forall_eq', exists_eq',
          forall_const]
      rw [hrun, PayloadBounded, ← bounded_parseHeader_iff hheader,
        ← bounded_parseRows_iff hsuite hrows]
      simp only [executeExternal, hparse, Except.ok.injEq, exists_eq_left']
      constructor
      · intro h
        exact ⟨⟨h.adapterVersion, h.interface rfl, h.harness rfl⟩, h.outcomes rfl⟩
      · intro h
        exact ⟨hsystem, h.1.1, List.forall_mem_nil _, rfl, fun _ => h.1.2.1, fun _ => h.2,
          fun _ => h.1.2.2⟩

end Conditions

end AdversarialCognition.Report
