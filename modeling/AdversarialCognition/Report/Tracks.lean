import AdversarialCognition.Report.Survival

/-!
# Tracks

A track is assigned to a system three times: the report builder stamps it on the entry, the
grouping derives it once more, and so does the renderer, unless it finds the stamp. The interface
all three go by is a string the adapter is free to choose. `tracks_agree` says that they agree,
and that the agent-memory track is where an attestation is.

## Systems, entries and groups

The law is about the systems that were handed in and the report that was built of them.
`TracksAgree.placed` has each of the systems in the report, in the group of its interface if it
was executed and in no group otherwise. Where a name is handed in twice the dictionary keeps the
last, so this is said of the last. The other fields go the other way, from the entries of the
report and their groups back, so that a report with an entry or a group too many would break one
of them.

An attestation in an entry is seen as a reader of the printed report sees it, by its keys.

## Where attestations come from

That an executed system has an attestation exactly if it is an agent loop depends on how its
report came about, so it is asked that each one is of the reference or of an adapter under the
second version (`Produced`). `produced_selectedReports` has it of whatever `execute_systems`
returns.
-/

namespace AdversarialCognition.Report

open Py Py.Str Json

/-- `_system_tracks` of `render_results.py`. -/
def systemTracks (report : BenchmarkReport) : List (Str × BenchmarkTrack) :=
  (report.systems.items.filter fun item => item.2.status = .executed).map fun item =>
    (item.1, item.2.track.getD (trackForInterface item.2.interfaceOr))

/-- `report["tracks"][track]` -/
def BenchmarkReport.group (report : BenchmarkReport) (track : BenchmarkTrack) : List Str :=
  ((report.tracks.getD []).lookup track).getD []

section Items

/-- `entry.get(key)`, of the dictionary an entry is. -/
def Entry.item? [Numerics] (entry : Entry) (key : String) : Option Json :=
  Json.item? entry.members key

/-- The entry carries a harness block with all required keys. -/
def Entry.Attested [Numerics] (entry : Entry) : Prop :=
  ∃ items, entry.item? "harness" = some (.obj items) ∧
    ∀ key ∈ harnessKeys, ∃ value, Json.item? items key = some value

theorem item?_cons (name key : String) (value : Json) (items : List (Str × Json)) :
    Json.item? ((lit name, value) :: items) key =
      if lit name = lit key then some value else Json.item? items key := by
  by_cases h : lit name = lit key <;> simp [Json.item?, h]

theorem item?_append (items more : List (Str × Json)) (key : String) :
    Json.item? (items ++ more) key = (Json.item? items key).or (Json.item? more key) := by
  simp only [Json.item?, List.find?_append, Option.map_or]

theorem item?_member? (name key : String) (value : Option Json) :
    Json.item? (member? name value) key = if lit name = lit key then value else none := by
  cases value with
  | none => simp [member?, Json.item?]
  | some value => by_cases h : lit name = lit key <;> simp [member?, Json.item?, h]

theorem lookup_keepHarness (items : List (Str × Json)) {key : String} (hkey : key ∈ harnessKeys) :
    Json.lookup (keepHarness items).items key .null =
      boundHarnessValue (Json.lookup items key .null) := by
  have hfound : (harnessKeys.find? fun name => lit name == lit key).isSome = true :=
    List.find?_isSome.2 ⟨key, hkey, beq_self_eq_true _⟩
  obtain ⟨name, hname⟩ := Option.isSome_iff_exists.1 hfound
  have hbeq := List.find?_some hname
  have heq : lit name = lit key := beq_iff_eq.1 hbeq
  have hlookup : Json.lookup items name .null = Json.lookup items key .null := by
    rw [Json.lookup, heq, Json.lookup]
  rw [Json.lookup, keepHarness, List.find?_map]
  simp only [Function.comp_def, hname, Option.map_some, Option.getD_some, hlookup]

variable [Numerics]

/-- What a reader finds under `"track"`. -/
theorem Entry.item?_track (entry : Entry) :
    entry.item? "track" = entry.track.map fun track => .str track.text := by
  simp [Entry.item?, Entry.members, item?_cons, item?_append, item?_member?]

theorem Entry.item?_harness (entry : Entry) :
    entry.item? "harness" = entry.harness.map fun harness => .obj harness.items := by
  simp [Entry.item?, Entry.members, item?_cons, item?_append, item?_member?]

end Items

/-!
## Attestations

Under the second version an attestation is kept if the interface is that of an agent loop, and a
payload of an agent loop without one is refused. So the two come together in every report that was
produced.
-/

/-- The report comes of the reference, or of an adapter under the second version. -/
def Produced [Runtime] [Numerics] (report : SystemReport) : Prop :=
  ∃ suite, (∃ runner, report = executeMarciana suite runner) ∨
    ∃ system commandVariable run, executeExternal system commandVariable suite 2 run = .ok report

/-- One interface is that of the agent track, and any other text is one of a memory store. -/
theorem trackForInterface_eq_agentMemory_iff {interface : Str} :
    trackForInterface interface = .agentMemory ↔ interface = lit "agent-loop" := by
  by_cases hloop : interface = lit "agent-loop"
  · refine iff_of_true ?_ hloop
    rw [hloop]
    decide
  · refine iff_of_false ?_ hloop
    unfold trackForInterface interfaceTracks
    by_cases hdirect : interface = lit "direct-api"
    · simp [hdirect]
    · simp [List.lookup_cons, hdirect, hloop, beq_eq_false_iff_ne.2]

section Attestations

variable [Runtime]
variable [Numerics]

/-- Under the second version, a block is kept exactly for an agent loop. -/
theorem parseExternalOutcomes_attested {payload : Str} {suite : List SuiteCase} {found : Parsed}
    (h : parseExternalOutcomes payload suite 2 = .ok found) :
    found.harness.isSome = true ↔ found.interface = lit "agent-loop" := by
  obtain ⟨parsed, -, hheader, -⟩ := parseExternalOutcomes_cases h
  obtain ⟨_, _, -, -, -, -, hharness⟩ := parseHeader_cases hheader
  rcases parseHarness_cases hharness with ⟨hnone, hinterface⟩ | ⟨items, -, -, hinterface, hkept⟩
  · rw [hnone]
    exact iff_of_false Bool.false_ne_true fun heq => hinterface ⟨le_rfl, heq⟩
  · rw [hkept]
    exact iff_of_true rfl hinterface

/-- An executed system has a block exactly if it is an agent loop. -/
theorem Produced.attested {report : SystemReport} (h : Produced report)
    (hexecuted : report.status = .executed) :
    report.harness.isSome = true ↔ report.interface = lit "agent-loop" := by
  obtain ⟨suite, ⟨runner, rfl⟩ | ⟨system, variable_, run, hrun⟩⟩ := h
  · refine iff_of_false Bool.false_ne_true ?_
    show ¬ lit "direct-api" = lit "agent-loop"
    simp
  · rcases executeExternal_cases hrun with ⟨-, rfl⟩ | ⟨-, message, rfl⟩ | ⟨found, hfound, rfl⟩
    · cases hexecuted
    · cases hexecuted
    · obtain ⟨stdout, -, hparse⟩ := hfound
      exact parseExternalOutcomes_attested hparse

end Attestations

/-- What `execute_systems` returns is produced. -/
theorem produced_selectedReports [Runtime] [Numerics] {selected : List Str}
    {suite : List SuiteCase} {runs : Str → AdapterRun} {runner : SuiteCase → ReferenceRun}
    {systems : List SystemReport} (h : selectedReports selected suite runs 2 runner = .ok systems) :
    ∀ report ∈ systems, Produced report := by
  intro report hreport
  rcases (mem_selectedReports_iff h).1 hreport with ⟨-, rfl⟩ | ⟨entry, -, -, hrun⟩
  · exact ⟨suite, .inl ⟨runner, rfl⟩⟩
  · exact ⟨suite, .inr ⟨entry.1, entry.2, runs entry.1, hrun⟩⟩

/-!
## The law

What the builder stamps, what the grouping derives and what the renderer finds are all functions
of the interface in the entry. The rest is that the systems handed in and the entries of the
report correspond.
-/

/-- What the report says of a system that was handed in: there is an entry of it, and it is in one
    group if it was executed, which is that of its interface, and else in none. -/
structure PlacedIn (report : BenchmarkReport) (system : SystemReport) : Prop where
  reported : ∃ entry, report.systems.get? system.system = some entry ∧
    entry.status = system.status
  executed : system.status = .executed → ∃! track, system.system ∈ report.group track
  group : ∀ track, system.system ∈ report.group track →
    system.status = .executed ∧ track = trackForInterface system.interface

/-- The assignments of tracks in a report of these systems: that of the interface, the stamp in an
    entry, the group of the report and what the renderer reads back. -/
structure TracksAgree [Numerics] (systems : List SystemReport) (report : BenchmarkReport) :
    Prop where
  /-- The dictionary of the systems keeps the last one of a name. -/
  placed : ∀ {pre system post}, systems = pre ++ system :: post →
    (∀ later ∈ post, later.system ≠ system.system) → PlacedIn report system
  /-- There is no entry but of a system that was handed in. -/
  handedIn : ∀ {name entry}, report.systems.get? name = some entry →
    ∃ system ∈ systems, system.system = name
  /-- The stamp is the group. -/
  stamped : ∀ {name entry}, report.systems.get? name = some entry → ∀ track,
    entry.item? "track" = some (.str (BenchmarkTrack.text track)) ↔ name ∈ report.group track
  /-- What the renderer reads back is the group. -/
  rendered : ∀ name track, (name, track) ∈ systemTracks report ↔ name ∈ report.group track
  /-- An executed system is in one group and in no other. -/
  exactlyOne : ∀ {name entry}, report.systems.get? name = some entry →
    entry.status = .executed → ∃! track, name ∈ report.group track
  /-- No group lists a name twice. -/
  once : ∀ track, (report.group track).Nodup
  /-- Whoever is in a group was executed. -/
  onlyExecuted : ∀ {name track}, name ∈ report.group track →
    ∃ entry, report.systems.get? name = some entry ∧ entry.status = .executed
  /-- The group of the agent loops is where an attestation is, and nowhere else. -/
  attested : ∀ {name entry}, report.systems.get? name = some entry →
    (name ∈ report.group .agentMemory ↔ entry.Attested)

section Law

variable [Runtime] [Numerics] {context : ReportContext} {systems : List SystemReport}
  {report : BenchmarkReport} {name : Str} {entry : Entry} {track : BenchmarkTrack}

omit [Runtime] in
/-- An entry of a second report is the one of its system, stamped if that was executed. -/
theorem get?_assembleReport (hversion : context.benchmark = benchmarkV2)
    (h : (assembleReport context systems).systems.get? name = some entry) :
    ∃ system ∈ systems, system.system = name ∧ entry =
      if system.status = .executed then system.asDict.stamp else system.asDict := by
  simp only [assembleReport, hversion, if_true] at h
  rw [get?_stamped, Option.map_eq_some_iff] at h
  obtain ⟨found, hfound, rfl⟩ := h
  obtain ⟨system, hmem, hname, rfl⟩ := get?_systemEntries hfound
  exact ⟨system, hmem, hname, rfl⟩

omit [Runtime] in
/-- A name is in a group if its entry is executed and of that interface. -/
theorem mem_group_iff (hversion : context.benchmark = benchmarkV2) :
    name ∈ (assembleReport context systems).group track ↔
      ∃ entry, (assembleReport context systems).systems.get? name = some entry ∧
        entry.status = .executed ∧ trackForInterface entry.interfaceOr = track := by
  have hgroup : (assembleReport context systems).group track =
      trackGroup (assembleReport context systems).systems track := by
    simp only [BenchmarkReport.group, assembleReport, hversion, if_true]
    cases track <;> rfl
  rw [hgroup, trackGroup, List.mem_map]
  simp only [List.mem_filter, Bool.and_eq_true, decide_eq_true_iff, Prod.exists,
    Dict.mem_items_iff]
  constructor
  · intro h
    obtain ⟨_, entry, ⟨hget, hentry⟩, rfl⟩ := h
    exact ⟨entry, hget, hentry⟩
  · intro h
    obtain ⟨entry, hget, hentry⟩ := h
    exact ⟨name, entry, ⟨hget, hentry⟩, rfl⟩

omit [Runtime] [Numerics] in
theorem mem_systemTracks_iff : (name, track) ∈ systemTracks report ↔
    ∃ entry, report.systems.get? name = some entry ∧ entry.status = .executed ∧
      entry.track.getD (trackForInterface entry.interfaceOr) = track := by
  simp only [systemTracks, List.mem_map, List.mem_filter, decide_eq_true_iff, Prod.exists,
    Prod.mk.injEq, Dict.mem_items_iff]
  constructor
  · intro h
    obtain ⟨_, entry, ⟨hget, hexecuted⟩, rfl, htrack⟩ := h
    exact ⟨entry, hget, hexecuted, htrack⟩
  · intro h
    obtain ⟨entry, hget, hexecuted, htrack⟩ := h
    exact ⟨name, entry, ⟨hget, hexecuted⟩, rfl, htrack⟩

omit [Runtime] in
theorem track_of_entry (hversion : context.benchmark = benchmarkV2)
    (h : (assembleReport context systems).systems.get? name = some entry) :
    entry.track = if entry.status = .executed then some (trackForInterface entry.interfaceOr)
      else none := by
  obtain ⟨system, -, -, rfl⟩ := get?_assembleReport hversion h
  by_cases hexecuted : system.status = .executed
  · simp [hexecuted, Entry.stamp, SystemReport.asDict, Entry.interfaceOr]
  · simp [hexecuted, SystemReport.asDict]

omit [Runtime] in
/-- An entry carries all required keys if it carries a block, as a block has them by its form. -/
theorem attested_iff : entry.Attested ↔ entry.harness.isSome = true := by
  unfold Entry.Attested
  rw [Entry.item?_harness]
  constructor
  · rintro ⟨items, hitems, -⟩
    obtain ⟨harness, hharness, -⟩ := Option.map_eq_some_iff.1 hitems
    rw [hharness]
    rfl
  · intro h
    obtain ⟨harness, hharness⟩ := Option.isSome_iff_exists.1 h
    refine ⟨harness.items, by rw [hharness]; rfl, fun key hkey => ?_⟩
    -- the block has every required key by construction
    have hmem : lit key ∈ harness.items.map Prod.fst := by
      rw [harness.keys]
      exact List.mem_map_of_mem hkey
    obtain ⟨item, hitem, hname⟩ := List.mem_map.1 hmem
    have hfound : (harness.items.find? fun item => item.1 == lit key).isSome = true :=
      List.find?_isSome.2 ⟨item, hitem, by simp [hname]⟩
    obtain ⟨found, hfound⟩ := Option.isSome_iff_exists.1 hfound
    exact ⟨found.2, by rw [Json.item?, hfound]; rfl⟩

omit [Runtime] in
/-- The group of an executed entry is the one of its interface, and the only one. -/
theorem mem_group_iff_of_get? (hversion : context.benchmark = benchmarkV2)
    (h : (assembleReport context systems).systems.get? name = some entry) :
    name ∈ (assembleReport context systems).group track ↔
      entry.status = .executed ∧ trackForInterface entry.interfaceOr = track := by
  rw [mem_group_iff hversion]
  constructor
  · intro hmem
    obtain ⟨other, hother, hentry⟩ := hmem
    rw [h] at hother
    cases hother
    exact hentry
  · intro hentry
    exact ⟨entry, h, hentry⟩

omit [Runtime] [Numerics] in
theorem BenchmarkTrack.text_injective : Function.Injective BenchmarkTrack.text := by
  intro track other h
  cases track <;> cases other <;> simp_all [BenchmarkTrack.text]

omit [Runtime] in
/-- No name is in a group twice, as none is in the dictionary twice. -/
theorem nodup_group (hversion : context.benchmark = benchmarkV2) (track : BenchmarkTrack) :
    ((assembleReport context systems).group track).Nodup := by
  have hgroup : (assembleReport context systems).group track =
      trackGroup (assembleReport context systems).systems track := by
    simp only [BenchmarkReport.group, assembleReport, hversion, if_true]
    cases track <;> rfl
  rw [hgroup]
  exact (assembleReport context systems).systems.nodupKeys.sublist (List.filter_sublist.map _)

theorem attested_iff_agentMemory (hversion : context.benchmark = benchmarkV2)
    (hsystems : ∀ system ∈ systems, Produced system)
    (h : (assembleReport context systems).systems.get? name = some entry) :
    name ∈ (assembleReport context systems).group .agentMemory ↔ entry.Attested := by
  rw [mem_group_iff_of_get? hversion h, attested_iff, trackForInterface_eq_agentMemory_iff]
  obtain ⟨system, hmem, -, rfl⟩ := get?_assembleReport hversion h
  by_cases hexecuted : system.status = .executed
  · rw [if_pos hexecuted]
    simp only [Entry.stamp, SystemReport.asDict, Entry.interfaceOr, hexecuted, if_true,
      Option.getD_some, true_and]
    exact ((hsystems system hmem).attested hexecuted).symm
  · simp [hexecuted, SystemReport.asDict]

omit [Runtime] in
theorem get?_assembleReport_of_last (hversion : context.benchmark = benchmarkV2)
    {pre post : List SystemReport} {system : SystemReport}
    (hlast : ∀ later ∈ post, later.system ≠ system.system) :
    (assembleReport context (pre ++ system :: post)).systems.get? system.system = some
      (if system.status = .executed then system.asDict.stamp else system.asDict) := by
  rw [get?_assembled, get?_systemEntries_of_last hlast, Option.map_some]
  simp only [hversion, true_and]
  rfl

omit [Runtime] in
/-- **A system that no later one replaces is placed.** -/
theorem placedIn_of_last (hversion : context.benchmark = benchmarkV2)
    {pre post : List SystemReport} {system : SystemReport}
    (hlast : ∀ later ∈ post, later.system ≠ system.system) :
    PlacedIn (assembleReport context (pre ++ system :: post)) system := by
  have hget : (assembleReport context (pre ++ system :: post)).systems.get? system.system = _ :=
    get?_assembleReport_of_last hversion hlast
  have hstatus : (if system.status = .executed then system.asDict.stamp
      else system.asDict).status = system.status := by
    split <;> rfl
  have hgroup : ∀ track, system.system ∈ (assembleReport context (pre ++ system :: post)).group track ↔
      system.status = .executed ∧ trackForInterface system.interface = track := by
    intro track
    rw [mem_group_iff_of_get? hversion hget, hstatus]
    refine and_congr_right fun hexecuted => ?_
    simp [hexecuted, Entry.stamp, SystemReport.asDict, Entry.interfaceOr]
  refine ⟨⟨_, hget, hstatus⟩, fun hexecuted => ?_, fun track hmem => ?_⟩
  · exact ⟨_, (hgroup _).2 ⟨hexecuted, rfl⟩, fun track hmem => ((hgroup track).1 hmem).2.symm⟩
  · obtain ⟨hexecuted, htrack⟩ := (hgroup track).1 hmem
    exact ⟨hexecuted, htrack.symm⟩

/-- **Every system that is handed in is in the report, each in one track if it was executed and in
    none else; the three assignments agree; and the agent-memory track is where an attestation
    is.** -/
theorem tracks_agree (hversion : context.benchmark = benchmarkV2)
    (hsystems : ∀ system ∈ systems, Produced system)
    (hbuild : buildReport context systems = .ok report) : TracksAgree systems report := by
  obtain ⟨-, rfl⟩ := buildReport_eq_ok_iff.1 hbuild
  refine ⟨fun heq hlast => ?_, fun hget => ?_, fun hget track => ?_, fun name track => ?_,
    fun hget hexecuted => ?_, nodup_group hversion, fun hmem => ?_,
    attested_iff_agentMemory hversion hsystems⟩
  · rw [heq]
    exact placedIn_of_last hversion hlast
  · obtain ⟨system, hmem, hname, -⟩ := get?_assembleReport hversion hget
    exact ⟨system, hmem, hname⟩
  · rw [mem_group_iff_of_get? hversion hget, Entry.item?_track, track_of_entry hversion hget]
    split
    · rename_i hexecuted
      simp [hexecuted, BenchmarkTrack.text_injective.eq_iff]
    · rename_i hexecuted
      simp [hexecuted]
  · rw [mem_systemTracks_iff, mem_group_iff hversion]
    refine exists_congr fun entry => and_congr_right fun hget => and_congr_right fun hexecuted => ?_
    rw [track_of_entry hversion hget, if_pos hexecuted, Option.getD_some]
  · refine ⟨_, (mem_group_iff_of_get? hversion hget).2 ⟨hexecuted, rfl⟩, fun track hmem => ?_⟩
    exact ((mem_group_iff_of_get? hversion hget).1 hmem).2.symm
  · obtain ⟨entry, hget, hexecuted, -⟩ := (mem_group_iff hversion).1 hmem
    exact ⟨entry, hget, hexecuted⟩

end Law

/-!
## A report with both tracks

The payload of an agent loop, and a report in which it stands beside the reference.
-/

section Examples

attribute [local instance] cpython Numerics.verbatim

/-- An attestation of some model. -/
def harnessItems (model : String) : List (Str × Json) := [
  ("model", .str model), ("seed", .int 7), ("temperature", .int 0), ("num_ctx", .int 8192),
  ("max_turns", .int 6), ("prompt_digest", .str "sha256:prompts"),
  ("tool_contract", .str "marciana-agent-tools-v1")]

/-- The payload of an agent loop that ran on some model. -/
def agentPayload (model : String) : Json := .obj [
  ("interface", .str "agent-loop"), ("harness", .obj (harnessItems model)),
  ("cases", .list [plainRow "a" true])]

theorem parse_agentPayload (model : String) :
    Json.parse (agentPayload model).dumps = .ok (agentPayload model) := by
  have hint : ∀ n : ℕ, n < 10 ^ 4 → Json.Printable (.int n) := fun n hn =>
    Json.printable_ofNat (by decide) hn
  have hdepth : (agentPayload model).depth = 3 := rfl
  refine Json.parse_dumps ?_ (hdepth ▸ le_trans (by decide) Decoder.ample)
  have hprint : Json.PrintableMembers (harnessItems model) :=
    ⟨encodable_lit _, encodable_lit _, encodable_lit _, hint 7 (by decide), encodable_lit _,
      hint 0 (by decide), encodable_lit _, hint 8192 (by decide), encodable_lit _,
      hint 6 (by decide), encodable_lit _, encodable_lit _, encodable_lit _, encodable_lit _,
      trivial⟩
  have hkeys : ((harnessItems model).map Prod.fst).Nodup := by simp [harnessItems]
  simp [agentPayload, Json.Printable, Json.PrintableMembers, Json.PrintableItems, encodable_lit,
    printable_plainRow, hprint, hkeys]

theorem parseHeader_agentPayload (model : String) : parseHeader (agentPayload model) 2 =
    .ok (adapterProtocol, lit "agent-loop", some (keepHarness (harnessItems model))) := rfl

theorem agentPayload_accepted (model : String) : ∃ found,
    parseExternalOutcomes (agentPayload model).dumps [suiteCase "a"] 2 = .ok found ∧
      found.version = adapterProtocol ∧ found.interface = lit "agent-loop" ∧
      found.harness = some (keepHarness (harnessItems model)) := by
  have hsame : SameIds [plainRow "a" true] [suiteCase "a"] := fun id => Iff.rfl
  exact accepted_of_header (parse_agentPayload model) (parseHeader_agentPayload model) rfl
    (List.forall_mem_singleton.2 (rowWellFormed_plainRow _ _)) hsame

/-- What does not depend on the model. -/
def harnessRest : List (Str × Json) := [
  ("seed", .int 7), ("temperature", .int 0), ("num_ctx", .int 8192), ("max_turns", .int 6),
  ("prompt_digest", .str "sha256:prompts"), ("tool_contract", .str "marciana-agent-tools-v1")]

theorem keepHarness_harnessItems (model : String) : (keepHarness (harnessItems model)).items =
    (lit "model", .str ((lit model).take 128)) :: harnessRest := rfl

theorem runBounded_agentPayload (model : String) (h : OneLine ((lit model).take 128)) :
    RunBounded [suiteCase "a"] 2 (.printed (agentPayload model).dumps) := by
  intro parsed hparsed _
  rw [parse_agentPayload, Except.ok.injEq] at hparsed
  subst hparsed
  refine ⟨⟨fun value hvalue => ?_, fun value hvalue => ?_, fun _ value items _ _ hitems => ?_⟩, ?_⟩
  · cases hvalue
    exact (oneLine_ofList (by decide)).take 64
  · cases hvalue
    exact (oneLine_ofList (by decide)).take 32
  · cases hitems
    have hroom : 1 + 4 ≤ Numerics.frames := le_trans (by decide) Numerics.roomy
    have hrest : ∀ item ∈ harnessRest, bounded item.2 = true ∧ calls item.2 = 1 := by decide
    have hitem : ∀ item ∈ (keepHarness (harnessItems model)).items, Attestable item.2 := by
      rw [keepHarness_harnessItems, List.forall_mem_cons]
      refine ⟨⟨(boundedText_take_iff (by decide)).2 h, hroom⟩, fun item hitem => ?_⟩
      obtain ⟨hbounded, hcalls⟩ := hrest item hitem
      exact ⟨hbounded, hcalls ▸ hroom⟩
    exact fun key hkey => hitem _ (List.mem_map_of_mem hkey)
  · intro value rows hvalue hrows
    cases hvalue
    cases hrows
    exact List.forall_mem_singleton.2 fun row hrow => rowBounded_plainRow hrow

/-- A report with the reference in one track and an agent loop in the other. -/
theorem tracksAgree_both : ∃ systems report,
    selectedReports ["marciana", "letta-agent"] [suiteCase "a"]
      (fun _ => .printed (agentPayload "llama3.1").dumps) 2 plainRunner = .ok systems ∧
    buildReport plainContext systems = .ok report ∧ TracksAgree systems report ∧
    lit "marciana" ∈ report.group .memoryStore ∧ lit "letta-agent" ∈ report.group .agentMemory := by
  have hknown : ∀ name ∈ [lit "marciana", lit "letta-agent"], name ∈ knownSystems 2 := by decide
  have hrun : RunBounded [suiteCase "a"] 2 (.printed (agentPayload "llama3.1").dumps) :=
    runBounded_agentPayload "llama3.1" ((oneLine_ofList (by decide)).take 128)
  have hbuilt : ∃ report, reportOf plainContext ["marciana", "letta-agent"] [suiteCase "a"]
      (fun _ => .printed (agentPayload "llama3.1").dumps) 2 plainRunner = .ok report :=
    (built_iff bounded_plainContext referenceBounded_plainRunner hknown).2 fun _ _ _ => hrun
  obtain ⟨report, hreport⟩ := hbuilt
  obtain ⟨systems, hselected, hbuild⟩ := (reportOf_eq_ok_iff hknown).1 hreport
  have hagree := tracks_agree rfl (produced_selectedReports hselected)
    (buildReport_eq_ok_iff.2 hbuild)
  refine ⟨systems, report, hselected, buildReport_eq_ok_iff.2 hbuild, hagree, ?_⟩
  -- both were handed in, and no later system has the name of either
  have hplace : ∀ system ∈ systems, PlacedIn report system := by
    intro system hmem
    obtain ⟨pre, post, rfl⟩ := List.append_of_mem hmem
    refine hagree.placed rfl fun later hlater heq => ?_
    have hnodup := nodup_selectedReports hselected
    rw [List.map_append, List.map_cons, List.nodup_append'] at hnodup
    exact (List.nodup_cons.1 hnodup.2.1).1 (heq ▸ List.mem_map_of_mem hlater)
  obtain ⟨found, hfound, -, hinterface, -⟩ := agentPayload_accepted "llama3.1"
  have hreference := (mem_selectedReports_iff hselected).2 (.inl ⟨by decide, rfl⟩)
  have hagent := (mem_selectedReports_iff hselected).2
    (.inr ⟨(lit "letta-agent", lit "MARCIANA_ADVERSARIAL_LETTA_AGENT_CMD"), by decide, by decide,
      executeExternal_of_accepted _ _ ⟨_, rfl, hfound⟩⟩)
  obtain ⟨track, hmem, -⟩ := (hplace _ hreference).executed rfl
  obtain ⟨other, hother, -⟩ := (hplace _ hagent).executed rfl
  obtain ⟨-, rfl⟩ := (hplace _ hreference).group track hmem
  obtain ⟨-, rfl⟩ := (hplace _ hagent).group other hother
  have hloop : trackForInterface (found.report (lit "letta-agent")).interface = .agentMemory :=
    trackForInterface_eq_agentMemory_iff.2 hinterface
  exact ⟨hmem, hloop ▸ hother⟩

end Examples

end AdversarialCognition.Report
