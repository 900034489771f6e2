import AdversarialCognition.Report.Layout

/-!
# Every system in its place

What `render_v2` returns lists every executed system in the tables of its own track and every
other one below. The texts an adapter chooses are put into the rows as they are, so whether that
is what the document says, and whether there is one, depends on them: `renders_iff`.

## Three conditions

* A text in a row must have no line break, or the row is read as two (`RowsUnbroken`).
* A text in a table of one track must not name a system of the other, as the check refuses the
  document then (`TablesApart`). A text names a system if one of its cells, once it is split at
  bars and stripped, is the name; a version that is the name of another system does.
* A text outside the tables may have line breaks, as long as what it is read as does not say
  otherwise (`ProseApart`): no table in it names both tracks, no row in it begins with the name of
  a system under the heading where that system stands, and no heading in it takes a table away.

Each is about the texts of the report, and the third is about them as they are read, since this is
all that can go wrong with them. Texts without line breaks satisfy it (`proseApart_of_unbroken`).

## Both directions

If the conditions hold there is a document and it shows every system in its place. Conversely a
document that does shows rows that are not broken (`rowsUnbroken_of_shows`); then it is read as it
was laid out, and the other two conditions are read off the tables and the rows under each heading
(`shows_shown_iff`).

The conditions cover what an adapter prints, what a command fails with, and the metadata of the
report. The names of the systems, the gates and all texts of the renderer are known, and decided
once.
-/

namespace AdversarialCognition.Report

open Py Py.Str Json

/-!
## What the cells name

A table names the systems that its rows name, row by row. Where a table is known to name one
track, it is calm if no row names another.
-/

section Mentions

variable {report : BenchmarkReport} {labels : List (Str × Str)} {rows : List Str} {row : Str}
  {track other : BenchmarkTrack}

/-- The row, as the check reads it, names a system of the track. -/
def RowNames (report : BenchmarkReport) (row : Str) (track : BenchmarkTrack) : Prop :=
  ∃ token ∈ rowTokens row, (token, track) ∈ systemTracks report

theorem mem_seenTracks_cons_iff : track ∈ seenTracks (systemTracks report) (row :: rows) ↔
    RowNames report row track ∨ track ∈ seenTracks (systemTracks report) rows := by
  simp only [mem_seenTracks_iff_names, List.mem_cons, exists_eq_or_imp, RowNames]

theorem mem_seenTracks_map_iff {α : Type*} {f : α → Str} {l : List α} :
    track ∈ seenTracks (systemTracks report) (l.map f) ↔ ∃ a ∈ l, RowNames report (f a) track := by
  simp only [mem_seenTracks_iff_names, List.mem_map, exists_exists_and_eq_and, RowNames]

theorem calm_iff_of_mem {P : BenchmarkTrack → Prop}
    (h : ∀ other, other ∈ seenTracks (systemTracks report) rows ↔ other = track ∨ P other) :
    Calm (systemTracks report) rows ↔ ∀ other, P other → other = track := by
  constructor
  · intro hcalm other hother
    exact hcalm other ((h other).2 (.inr hother)) track ((h track).2 (.inl rfl))
  · intro hall a ha b hb
    have heq : ∀ other, other ∈ seenTracks (systemTracks report) rows → other = track :=
      fun other hother => ((h other).1 hother).elim id (hall other)
    rw [heq a ha, heq b hb]

/-- Only known systems are named. -/
theorem known_of_mem_systemTracks (h : Listed report labels) {name : Str}
    (hname : (name, track) ∈ systemTracks report) : name ∈ knownSystems 2 := by
  obtain ⟨entry, hentry, -⟩ := mem_systemTracks_iff.1 hname
  exact h.known hentry

theorem not_rowNames (h : Listed report labels)
    (hrow : ∀ token ∈ rowTokens row, token ∉ knownSystems 2) : ¬ RowNames report row track := by
  rintro ⟨token, htoken, htrack⟩
  exact hrow token htoken (known_of_mem_systemTracks h htrack)

theorem not_names_of_silent (h : Listed report labels) {text : Str} (hsilent : Silent text) :
    ¬ Names report text track := by
  rintro ⟨token, htoken, htrack⟩
  exact hsilent token htoken (known_of_mem_systemTracks h htrack)

theorem systemTracks_unique {name : Str} (h : (name, track) ∈ systemTracks report)
    (hother : (name, other) ∈ systemTracks report) : track = other := by
  obtain ⟨entry, hentry, -, rfl⟩ := mem_systemTracks_iff.1 h
  obtain ⟨entry', hentry', -, rfl⟩ := mem_systemTracks_iff.1 hother
  rw [hentry] at hentry'
  cases hentry'
  rfl

/-!
## Numbers

The numerals in a row name no system, since no name begins with a digit.
-/

theorem ofNat_eq_cons (n : ℕ) :
    ∃ c rest, ofNat n = c :: rest ∧ 0x30 ≤ c.val ∧ c.val ≤ 0x39 := by
  have hne : Nat.toDigits 10 n ≠ [] := Nat.toDigits_ne_nil
  obtain ⟨d, ds, hdigits⟩ := List.exists_cons_of_ne_nil hne
  refine ⟨CodePoint.ofChar d, ds.map CodePoint.ofChar, by rw [ofNat, hdigits, List.map_cons], ?_⟩
  have hdigit := Nat.isDigit_of_mem_toDigits (by decide) (by decide)
    (hdigits ▸ List.mem_cons_self : d ∈ Nat.toDigits 10 n)
  simp only [Char.isDigit, Bool.and_eq_true, decide_eq_true_eq, UInt32.le_iff_toNat_le] at hdigit
  exact hdigit

theorem bar_notMem_ofNat (n : ℕ) : bar ∉ ofNat n :=
  fun h => absurd (isDigit_of_mem_ofNat h) (by decide)

theorem silent_ofNat_append (n : ℕ) {text : Str} (h : bar ∉ text) : Silent (ofNat n ++ text) := by
  obtain ⟨c, rest, hnat, hlow, hhigh⟩ := ofNat_eq_cons n
  have hbar : bar ∉ ofNat n ++ text := by
    simp only [List.mem_append, not_or]
    exact ⟨bar_notMem_ofNat n, h⟩
  rw [hnat] at hbar ⊢
  exact silent_of_digit hlow hhigh hbar

end Mentions

/-!
## Which tables are calm

One lemma for each kind of table: what its rows name besides the systems they are about is what
the texts in them name.
-/

section Calm

variable [Percent] {report : BenchmarkReport} {labels : List (Str × Str)}
  {track other : BenchmarkTrack} {members : List Member}

/-- The row of a system names it, and whatever its version names. -/
theorem rowNames_systemRow_iff (h : Listed report labels) {member : Member}
    (hmember : ListedMember report track member) : RowNames report (systemRow member) other ↔
      other = track ∨ Names report (code member.entry.adapterVersion) other := by
  have hslash : bar ∉ lit "/" := by decide
  have hopen : bar ∉ lit "% (" := by decide
  have hclose : bar ∉ lit ")" := by decide
  have hcoverage : ¬ Names report (ofNat member.supported.length ++ lit "/" ++
      ofNat member.cases.length) other := by
    refine not_names_of_silent h ?_
    rw [List.append_assoc]
    refine silent_ofNat_append _ ?_
    simp [hslash, bar_notMem_ofNat]
  have hcorrect : ¬ Names report (correctnessText member.correct member.supported.length)
      other := by
    refine not_names_of_silent h ?_
    simp only [correctnessText, List.append_assoc]
    refine silent_ofNat_append _ ?_
    simp [hslash, hopen, hclose, bar_notMem_ofNat]
  have hname : Names report member.name other ↔ other = track := by
    rw [names_known_iff (hmember.known h)]
    refine ⟨fun hother => systemTracks_unique hother hmember.track, ?_⟩
    rintro rfl
    exact hmember.track
  rw [RowNames, systemRow, names_tableRow_iff (List.cons_ne_nil _ _)]
  simp only [List.mem_cons, List.not_mem_nil, or_false, exists_eq_or_imp, exists_eq_left, hname,
    hcoverage, hcorrect]

/-- The systems table of a track: no version names a system of the other. -/
theorem calm_systemsTable_iff (h : Listed report labels) (hare : AreMembers report track members)
    (hne : members ≠ []) : Calm (systemTracks report) (systemsTable members) ↔
      ∀ other, (∃ member ∈ members, Names report (code member.entry.adapterVersion) other) →
        other = track := by
  have hheader : ∀ token ∈ rowTokens systemsHeader, token ∉ knownSystems 2 := by decide
  have hrule : ∀ token ∈ rowTokens systemsRule, token ∉ knownSystems 2 := by decide
  refine calm_iff_of_mem fun other => ?_
  rw [systemsTable, mem_seenTracks_cons_iff, mem_seenTracks_cons_iff, mem_seenTracks_map_iff]
  simp only [not_rowNames h hheader, not_rowNames h hrule, false_or]
  constructor
  · rintro ⟨member, hmember, hnames⟩
    rw [rowNames_systemRow_iff h ((hare.mem member).1 hmember)] at hnames
    exact hnames.imp id fun hversion => ⟨member, hmember, hversion⟩
  · intro hother
    obtain ⟨first, hfirst⟩ := List.exists_mem_of_ne_nil _ hne
    rcases hother with rfl | ⟨member, hmember, hversion⟩
    · exact ⟨first, hfirst, (rowNames_systemRow_iff h ((hare.mem first).1 hfirst)).2 (.inl rfl)⟩
    · refine ⟨member, hmember, ?_⟩
      exact (rowNames_systemRow_iff h ((hare.mem member).1 hmember)).2 (.inr hversion)

omit [Percent] in
theorem rowNames_caseHeader_iff (h : Listed report labels) (hare : AreMembers report track members)
    (hne : members ≠ []) : RowNames report (caseHeader members) other ↔ other = track := by
  have hcase : ¬ Names report (lit "Case") other := not_names_of_silent h (by decide)
  have hcategory : ¬ Names report (lit "Category") other := not_names_of_silent h (by decide)
  have hname : ∀ member ∈ members, (Names report member.name other ↔ other = track) := by
    intro member hmember
    have hlisted := (hare.mem member).1 hmember
    rw [names_known_iff (hlisted.known h)]
    refine ⟨fun hother => systemTracks_unique hother hlisted.track, ?_⟩
    rintro rfl
    exact hlisted.track
  rw [RowNames, caseHeader, names_tableRow_iff (List.cons_ne_nil _ _)]
  simp only [List.mem_cons, List.mem_map, exists_eq_or_imp, hcase, hcategory, false_or,
    exists_exists_and_eq_and]
  constructor
  · rintro ⟨member, hmember, hnames⟩
    exact (hname member hmember).1 hnames
  · intro hother
    obtain ⟨first, hfirst⟩ := List.exists_mem_of_ne_nil _ hne
    exact ⟨first, hfirst, (hname first hfirst).2 hother⟩

omit [Percent] in
/-- The rule below it names nothing. -/
theorem not_rowNames_caseRule (h : Listed report labels) (hne : members ≠ []) :
    ¬ RowNames report (caseRule members) other := by
  have hfields : ∀ field ∈ lit "------" :: lit "----------" :: members.map (fun _ => lit "---"),
      field ∈ [lit "------", lit "----------", lit "---"] := by
    simp
  have hends : ∀ field ∈ [lit "------", lit "----------", lit "---"],
      ∃ (h : field ≠ []), field.head h ≠ bar ∧ field.getLast h ≠ bar := by decide
  have hsilent : ∀ field ∈ [lit "------", lit "----------", lit "---"],
      ∀ token ∈ cellTokens field, token ∉ knownSystems 2 := by decide
  have hrule : caseRule members = bar ::
      join "|" (lit "------" :: lit "----------" :: members.map fun _ => lit "---") ++ [bar] := by
    obtain ⟨first, rest, rfl⟩ := List.exists_cons_of_ne_nil hne
    have hopen : lit "|------|----------|" =
        bar :: lit "------" ++ lit "|" ++ lit "----------" ++ lit "|" := by decide
    have hclose : lit "|" = [bar] := rfl
    rw [caseRule, List.map_cons, join_cons_cons, join_cons_cons, hopen]
    simp [hclose]
  refine not_rowNames h fun token htoken => ?_
  rw [hrule, rowTokens_join (List.cons_ne_nil _ _) fun field hfield =>
    hends field (hfields field hfield), List.mem_flatMap] at htoken
  obtain ⟨field, hfield, htoken⟩ := htoken
  exact hsilent field (hfields field hfield) token htoken

omit [Percent] in
theorem rowNames_caseRow_iff (h : Listed report labels) {width : ℕ} {id row : Str}
    (hrow : IsCaseRow labels width id row) : RowNames report row other ↔
      Names report (code id) other ∨ Names report (labelCategory labels id) other := by
  obtain ⟨cells, -, hcells, rfl⟩ := hrow
  have hmarks : ∀ text ∈ marks, Silent text := by decide
  have hnone : ∀ text ∈ cells, ¬ Names report text other := fun text htext =>
    not_names_of_silent h (hmarks text (hcells text htext))
  rw [RowNames, names_tableRow_iff (List.cons_ne_nil _ _)]
  simp only [List.mem_cons, exists_eq_or_imp]
  constructor
  · rintro (hid | hcategory | ⟨text, htext, hnames⟩)
    · exact .inl hid
    · exact .inr hcategory
    · exact absurd hnames (hnone text htext)
  · rintro (hid | hcategory)
    · exact .inl hid
    · exact .inr (.inl hcategory)

omit [Percent] in
/-- The case matrix of a track: no case or category has the name of a system of the other. -/
theorem calm_matrixTable_iff (h : Listed report labels) (hare : AreMembers report track members)
    (hne : members ≠ []) {rows : List Str}
    (hrows : List.Forall₂ (IsCaseRow labels members.length) (labels.map Prod.fst) rows) :
    Calm (systemTracks report) (matrixTable members rows) ↔
      ∀ other, (∃ id ∈ labels.map Prod.fst, Names report (code id) other ∨
        Names report (labelCategory labels id) other) → other = track := by
  refine calm_iff_of_mem fun other => ?_
  rw [matrixTable, mem_seenTracks_cons_iff, mem_seenTracks_cons_iff,
    rowNames_caseHeader_iff h hare hne]
  simp only [not_rowNames_caseRule h hne, false_or]
  refine or_congr_right ?_
  rw [mem_seenTracks_iff_names]
  have hiff : ∀ (ids rows : List Str), List.Forall₂ (IsCaseRow labels members.length) ids rows →
      ((∃ row ∈ rows, RowNames report row other) ↔ ∃ id ∈ ids, Names report (code id) other ∨
        Names report (labelCategory labels id) other) := by
    intro ids rows hall
    induction hall with
    | nil => simp
    | cons hrow _ ih =>
      simp only [List.mem_cons, exists_eq_or_imp, rowNames_caseRow_iff h hrow, ih]
  exact hiff _ _ hrows

omit [Percent] in
theorem calm_gateTable (h : Listed report labels) : Calm (systemTracks report) (gateTable report) := by
  have hheader : ∀ token ∈ rowTokens gateHeader, token ∉ knownSystems 2 := by decide
  have hrule : ∀ token ∈ rowTokens gateRule, token ∉ knownSystems 2 := by decide
  have hgate : ∀ gate : Gate, Silent (code gate.name) := by
    intro gate
    cases gate <;> decide
  have hcount : ∀ n : ℕ, Silent (ofNat n) := by
    intro n
    rw [← List.append_nil (ofNat n)]
    exact silent_ofNat_append n List.not_mem_nil
  have hnone : ∀ track, track ∉ seenTracks (systemTracks report) (gateTable report) := by
    intro track
    rw [gateTable, mem_seenTracks_cons_iff, mem_seenTracks_cons_iff, mem_seenTracks_map_iff]
    rintro (hmem | hmem | ⟨gate, -, hmem⟩)
    · exact not_rowNames h hheader hmem
    · exact not_rowNames h hrule hmem
    · rw [RowNames, gateRow, names_tableRow_iff (List.cons_ne_nil _ _)] at hmem
      simp only [List.mem_cons, List.not_mem_nil, or_false, exists_eq_or_imp, exists_eq_left] at hmem
      exact hmem.elim (not_names_of_silent h (hgate gate)) (not_names_of_silent h (hcount _))
  exact fun track htrack => absurd htrack (hnone track)

omit [Percent] in
/-- The last table: the details of the systems name systems of one track at most. -/
theorem mem_seenTracks_absentTable_iff (h : Listed report labels) :
    track ∈ seenTracks (systemTracks report) (absentTable report) ↔
      ∃ item ∈ absentSystems report, Names report (detail item.2) track := by
  have hheader : ∀ token ∈ rowTokens absentHeader, token ∉ knownSystems 2 := by decide
  have hrule : ∀ token ∈ rowTokens absentRule, token ∉ knownSystems 2 := by decide
  have hstatus : ∀ status : Status, Silent status.text := by
    intro status
    cases status <;> decide
  rw [absentTable, mem_seenTracks_cons_iff, mem_seenTracks_cons_iff, mem_seenTracks_map_iff]
  simp only [not_rowNames h hheader, not_rowNames h hrule, false_or]
  refine exists_congr fun item => and_congr_right fun hitem => ?_
  obtain ⟨hget, hnot⟩ := mem_absentSystems_iff.1 hitem
  have hname : ¬ Names report item.1 track := by
    rw [names_known_iff (h.known hget), mem_systemTracks_iff]
    rintro ⟨entry, hentry, hexecuted, -⟩
    rw [hget] at hentry
    cases hentry
    exact hnot hexecuted
  rw [RowNames, absentRow, names_tableRow_iff (List.cons_ne_nil _ _)]
  simp [hname, not_names_of_silent h (hstatus _)]

end Calm

/-!
## When there is a document

The check passes if and only if all tables are calm, those that the prose is mistaken for
included.
-/

/-- No text in a table of one track, read as a cell, names a system of the other, and the
    details of the systems that were not executed do not name systems of both. -/
structure TablesApart (report : BenchmarkReport) : Prop where
  /-- The version of a system names none of the other track. -/
  version : ∀ {name entry track other}, (name, track) ∈ systemTracks report →
    report.systems.get? name = some entry → Names report (code entry.adapterVersion) other →
      other = track
  /-- Nor does the id of a case, nor its category. -/
  cases : ∀ {name entry cases track other}, (name, track) ∈ systemTracks report →
    report.systems.get? name = some entry → entry.cases = some cases → ∀ outcome ∈ cases,
      Names report (code outcome.caseId) other ∨
        Names report (categoryOf cases outcome.caseId) other → other = track
  /-- The details of the systems that were not executed are in one table, so no two of them name
      systems of two tracks. -/
  detail : ∀ {name entry name' entry' track other}, report.systems.get? name = some entry →
    entry.status ≠ .executed → report.systems.get? name' = some entry' →
      entry'.status ≠ .executed → Names report (detail entry) track →
        Names report (detail entry') other → track = other

section Document

variable [Runtime] [Percent] {report : BenchmarkReport} {labels : List (Str × Str)}

omit [Runtime] [Percent] in
theorem listedMember_of_track (h : Listed report labels) {name : Str} {track : BenchmarkTrack}
    {entry : Entry} (htrack : (name, track) ∈ systemTracks report)
    (hget : report.systems.get? name = some entry) :
    ∃ cases, ListedMember report track ⟨name, entry, cases⟩ := by
  obtain ⟨found, hfound, hexecuted, -⟩ := mem_systemTracks_iff.1 htrack
  rw [hget] at hfound
  cases hfound
  obtain ⟨cases, hcases, -⟩ := h.cases hget hexecuted
  exact ⟨cases, htrack, hget, hcases⟩

/-- In calm tables no text names a system of another track than the table is of. A table is there
    if the track has a member. -/
theorem tablesApart_of_calm (h : Listed report labels) (layout : Layout report labels)
    (htracks : ∀ track, layout.members track ≠ [] →
      Calm (systemTracks report) (systemsTable (layout.members track)) ∧
        Calm (systemTracks report) (matrixTable (layout.members track) (layout.rows track)))
    (habsent : (absentSystems report).isEmpty = false →
      Calm (systemTracks report) (absentTable report)) : TablesApart report := by
  refine ⟨fun hname hget hnames => ?_, fun hname hget hcases outcome houtcome hnames => ?_,
    fun hget hnot hget' hnot' hnames hnames' => ?_⟩
  · obtain ⟨cases, hmember⟩ := listedMember_of_track h hname hget
    have hmem := ((layout.areMembers _).mem _).2 hmember
    have hne := List.ne_nil_of_mem hmem
    exact (calm_systemsTable_iff h (layout.areMembers _) hne).1 (htracks _ hne).1 _
      ⟨_, hmem, hnames⟩
  · obtain ⟨cases, hmember⟩ := listedMember_of_track h hname hget
    have hmem := ((layout.areMembers _).mem _).2 hmember
    have hne := List.ne_nil_of_mem hmem
    obtain rfl : _ = cases := Option.some.inj (hcases.symm.trans hmember.cases)
    have hlabels := hmember.map_label h
    rw [categoryOf_eq, hlabels] at hnames
    refine (calm_matrixTable_iff h (layout.areMembers _) hne (layout.caseRows _ hne)).1
      (htracks _ hne).2 _ ⟨outcome.caseId, ?_, hnames⟩
    rw [← hlabels, List.map_map]
    exact List.mem_map_of_mem houtcome
  · have hitem := mem_absentSystems_iff.2 ⟨hget, hnot⟩
    have hitem' := mem_absentSystems_iff.2 ⟨hget', hnot'⟩
    have hempty : (absentSystems report).isEmpty = false := by
      simpa using List.ne_nil_of_mem hitem
    exact habsent hempty _ ((mem_seenTracks_absentTable_iff h).2 ⟨_, hitem, hnames⟩) _
      ((mem_seenTracks_absentTable_iff h).2 ⟨_, hitem', hnames'⟩)

theorem TablesApart.calm_tracks (hapart : TablesApart report) (h : Listed report labels)
    (layout : Layout report labels) (track : BenchmarkTrack) (hne : layout.members track ≠ []) :
    Calm (systemTracks report) (systemsTable (layout.members track)) ∧
      Calm (systemTracks report) (matrixTable (layout.members track) (layout.rows track)) := by
  refine ⟨(calm_systemsTable_iff h (layout.areMembers track) hne).2 ?_,
    (calm_matrixTable_iff h (layout.areMembers track) hne (layout.caseRows track hne)).2 ?_⟩
  · rintro other ⟨member, hmem, hnames⟩
    have hmember := ((layout.areMembers track).mem member).1 hmem
    exact hapart.version hmember.track hmember.entry hnames
  · rintro other ⟨id, hid, hnames⟩
    obtain ⟨first, hfirst⟩ := List.exists_mem_of_ne_nil _ hne
    have hmember := ((layout.areMembers track).mem first).1 hfirst
    have hlabels := hmember.map_label h
    rw [← hlabels, List.map_map] at hid
    obtain ⟨outcome, houtcome, rfl⟩ := List.mem_map.1 hid
    rw [← hlabels, ← categoryOf_eq] at hnames
    exact hapart.cases hmember.track hmember.entry hmember.cases outcome houtcome hnames

omit [Runtime] [Percent] in
theorem TablesApart.calm_absentTable (hapart : TablesApart report) (h : Listed report labels) :
    Calm (systemTracks report) (absentTable report) := by
  intro track htrack other hother
  obtain ⟨item, hitem, hnames⟩ := (mem_seenTracks_absentTable_iff h).1 htrack
  obtain ⟨item', hitem', hnames'⟩ := (mem_seenTracks_absentTable_iff h).1 hother
  obtain ⟨hget, hnot⟩ := mem_absentSystems_iff.1 hitem
  obtain ⟨hget', hnot'⟩ := mem_absentSystems_iff.1 hitem'
  exact hapart.detail hget hnot hget' hnot' hnames hnames'

/-- **The tables of the document are calm if and only if the texts keep apart**, what the prose
    is mistaken for aside. -/
theorem calm_shown_iff (h : Listed report labels) (layout : Layout report labels) :
    EachBlock isProse (Calm (systemTracks report)) layout.shown ↔
      EachProseBlock (Calm (systemTracks report)) report ∧ TablesApart report := by
  rw [eachBlock_shown_iff (calm_nil _)]
  refine and_congr_right fun _ => ?_
  constructor
  · rintro ⟨htracks, -, habsent⟩
    exact tablesApart_of_calm h layout htracks habsent
  · intro hapart
    exact ⟨hapart.calm_tracks h layout, calm_gateTable h, fun _ => hapart.calm_absentTable h⟩

/-- Where no row is broken, there is a document if and only if the texts keep apart. -/
theorem renderV2_eq_ok_iff (h : Listed report labels) (hrows : RowsUnbroken report)
    {layout : Layout report labels} (hlines : renderLines report = .ok (layout.lines ++ [[]]))
    {document : Str} : renderV2 report = .ok document ↔
      (EachProseBlock (Calm (systemTracks report)) report ∧ TablesApart report) ∧
        document = join "\n" (layout.lines ++ [[]]) := by
  have hread : splitlines (join "\n" (layout.lines ++ [[]])) = layout.shown :=
    (splitlines_join _).trans (flatMap_lines h hrows layout)
  have hcheck : assertNoCrossTrackTable (join "\n" (layout.lines ++ [[]])) report = .ok () ↔
      EachProseBlock (Calm (systemTracks report)) report ∧ TablesApart report := by
    rw [assertNoCrossTrackTable, hread, checkTables_eq_ok_iff (List.forall_mem_nil _),
      List.nil_append, calm_shown_iff h]
  rw [← hcheck, renderV2, hlines]
  constructor
  · intro hok
    obtain ⟨lines, hbuilt, hok⟩ := bind_eq_ok_iff.1 hok
    cases hbuilt
    obtain ⟨_, hassert, hok⟩ := bind_eq_ok_iff.1 hok
    exact ⟨hassert, (Except.ok.inj hok).symm⟩
  · rintro ⟨hassert, rfl⟩
    exact bind_eq_ok_iff.2 ⟨_, rfl, bind_eq_ok_iff.2 ⟨(), hassert, rfl⟩⟩

/-!
## What a document shows

The purpose of the document, said of its lines: each system has one row, under its own heading,
and one column in the case matrix, or one row in the last table.
-/

/-- The row, as the check reads it, begins with the name. -/
def firstCell (name : Str) (row : Str) : Bool := (rowTokens row).head? == some name

/-- Under the heading of its track, every executed system has one row; under that of the case matrix
    there is one table, in which it has one column and each of its cases a row; under the last
    heading every other system has one row; and no table names systems of two tracks. -/
structure Shows (report : BenchmarkReport) (lines : List Str) : Prop where
  row : ∀ {name entry track}, report.systems.get? name = some entry →
    (name, track) ∈ systemTracks report → ∃ cases, entry.cases = some cases ∧
      (rowsUnder (trackHeading track) false lines).filter (firstCell name) =
        [systemRow ⟨name, entry, cases⟩]
  column : ∀ {name entry track}, report.systems.get? name = some entry →
    (name, track) ∈ systemTracks report → ∃ cases members rows, entry.cases = some cases ∧
      rowsUnder (matrixHeading track) false lines = caseHeader members :: caseRule members :: rows ∧
      (rowTokens (caseHeader members)).count name = 1 ∧
      List.Forall₂ (fun outcome row =>
        IsCaseRow (cases.map CaseOutcome.label) members.length outcome.caseId row) cases rows
  absent : ∀ {name entry}, report.systems.get? name = some entry → entry.status ≠ .executed →
    (rowsUnder absentHeading false lines).filter (firstCell name) = [absentRow name entry]
  apart : EachBlock isProse (Calm (systemTracks report)) lines

/-- `render_v2` returns a document that shows every system in its place. -/
def RendersRight (report : BenchmarkReport) : Prop :=
  ∃ document, renderV2 report = .ok document ∧ Shows report (splitlines document)

/-!
## What the prose may show

The texts outside of the tables may be read as rows or as headings. The condition on them is what
is needed and no more: none of their rows begins with a system that stands under the same heading,
and none of their headings takes a table away.
-/

/-- The rows that the prose puts under the heading, which stand before its tables and between
    them. -/
def proseRows (report : BenchmarkReport) (heading : Str) : List Str :=
  rowsUnder heading false (headerProse report) ++ benchmarkTracks.flatMap fun track =>
    rowsUnder heading (trackHeading track = heading) (harnessProse report track)

/-- What the texts outside the tables may be read as. Where they have no line break, they are one
    line each, and nothing here asks for more (`proseApart_of_unbroken`). -/
structure ProseApart (report : BenchmarkReport) : Prop where
  /-- A table that the prose is read as names systems of one track at most. -/
  calm : EachProseBlock (Calm (systemTracks report)) report
  /-- No row of the prose begins with the name of a system under the heading of its track, unless a
      heading in the attestation takes the table away from there, and then one does that is the
      row in it. -/
  system : ∀ {name entry track}, report.systems.get? name = some entry →
    (name, track) ∈ systemTracks report → ∃ cases, entry.cases = some cases ∧
      (proseRows report (trackHeading track)).filter (firstCell name) =
        if endsUnder (trackHeading track) true (harnessProse report track) = true then []
        else [systemRow ⟨name, entry, cases⟩]
  /-- No row stands under the heading of a case matrix of which there is one, and no attestation
      ends with it. -/
  matrix : ∀ {name track}, (name, track) ∈ systemTracks report →
    proseRows report (matrixHeading track) = [] ∧ ∀ other name, (name, other) ∈ systemTracks report →
      endsUnder (matrixHeading track) false (harnessProse report other) = false
  /-- No row of the prose begins with the name of a system that was not executed, under the
      heading of those. -/
  absent : ∀ {name entry}, report.systems.get? name = some entry → entry.status ≠ .executed →
    (proseRows report absentHeading).filter (firstCell name) = []

/-!
## One row each

Within a table every system has one row, as no name is repeated. A system is told by the first
cell.
-/

section Rows

variable {track : BenchmarkTrack} {members : List Member}

omit [Runtime] [Percent] in
theorem filter_map_eq_singleton {α : Type} {key : α → Str} {f : α → Str} {p : Str → Bool}
    {l : List α} (hnodup : (l.map key).Nodup) {a : α} (ha : a ∈ l)
    (hp : ∀ b ∈ l, p (f b) = true ↔ key b = key a) : (l.map f).filter p = [f a] := by
  induction l with
  | nil => cases ha
  | cons b l ih =>
    obtain ⟨hb, hrest⟩ := List.nodup_cons.1 hnodup
    rw [List.forall_mem_cons] at hp
    rw [List.map_cons]
    rcases List.mem_cons.1 ha with rfl | hmem
    · have hnone : (l.map f).filter p = [] := by
        rw [List.filter_eq_nil_iff, List.forall_mem_map]
        intro c hc htrue
        exact hb (((hp.2 c hc).1 htrue) ▸ List.mem_map_of_mem hc)
      rw [List.filter_cons_of_pos (hp.1.2 rfl), hnone]
    · have hne : ¬ p (f b) = true := fun htrue => hb ((hp.1.1 htrue) ▸ List.mem_map_of_mem hmem)
      rw [List.filter_cons_of_neg hne]
      exact ih hrest hmem hp.2

omit [Runtime] [Percent] in
theorem firstCell_tableRow_iff {name other : Str} (h : name ∈ knownSystems 2) (cells : List Str) :
    firstCell other (tableRow (name :: cells)) = true ↔ name = other := by
  rw [firstCell, rowTokens_tableRow (List.cons_ne_nil _ _), List.flatMap_cons, cellTokens_known name h]
  simp

omit [Runtime] in
theorem filter_systemRows (h : Listed report labels) (hare : AreMembers report track members)
    {member : Member} (hmember : member ∈ members) :
    (members.map systemRow).filter (firstCell member.name) = [systemRow member] := by
  refine filter_map_eq_singleton hare.nodup hmember fun other hother => ?_
  exact firstCell_tableRow_iff (((hare.mem other).1 hother).known h) _

omit [Runtime] [Percent] in
theorem filter_absentRows (h : Listed report labels) {name : Str} {entry : Entry}
    (hitem : (name, entry) ∈ absentSystems report) :
    ((absentSystems report).map fun item => absentRow item.1 item.2).filter (firstCell name) =
      [absentRow name entry] := by
  have hnodup : ((absentSystems report).map Prod.fst).Nodup := by
    rw [absentSystems, ((List.mergeSort_perm _ _).map _).nodup_iff]
    exact report.systems.nodupKeys.sublist (List.filter_sublist.map _)
  refine filter_map_eq_singleton hnodup hitem fun other hother => ?_
  exact firstCell_tableRow_iff (h.known (mem_absentSystems_iff.1 hother).1) _

omit [Runtime] [Percent] in
theorem count_caseHeader (h : Listed report labels) (hare : AreMembers report track members)
    {member : Member} (hmember : member ∈ members) :
    (rowTokens (caseHeader members)).count member.name = 1 := by
  have hcells : (members.map (·.name)).flatMap (fun text => cellTokens (padded text)) =
      members.map (·.name) := by
    have hall : ∀ name ∈ members.map (·.name), cellTokens (padded name) = [name] := by
      refine List.forall_mem_map.2 fun other hother => ?_
      exact cellTokens_known _ (((hare.mem other).1 hother).known h)
    rw [List.flatMap_congr hall, List.flatMap_singleton']
  have hlabels : cellTokens (padded (lit "Case")) = [lit "Case"] ∧
      cellTokens (padded (lit "Category")) = [lit "Category"] := by decide
  have hother : ∀ name ∈ knownSystems 2, name ≠ lit "Case" ∧ name ≠ lit "Category" := by decide
  have hne := hother _ (((hare.mem member).1 hmember).known h)
  rw [caseHeader, rowTokens_tableRow (List.cons_ne_nil _ _), List.flatMap_cons, List.flatMap_cons,
    hcells, hlabels.1, hlabels.2, List.singleton_append, List.singleton_append,
    List.count_cons_of_ne hne.1.symm, List.count_cons_of_ne hne.2.symm]
  exact List.count_eq_one_of_mem hare.nodup (List.mem_map_of_mem hmember)

end Rows

/-!
## The law

Heading by heading, the filter for a system gives one row exactly if the prose adds none and takes
none away. The headings of the document are different from each other, which is decided on their
texts.
-/

section Under

variable {layout : Layout report labels} {track other : BenchmarkTrack} {heading name : Str}
  {entry : Entry} {cases : List CaseOutcome}

omit [Percent] in
theorem members_ne_nil_iff (h : Listed report labels) (layout : Layout report labels) :
    layout.members track ≠ [] ↔ ∃ name, (name, track) ∈ systemTracks report := by
  constructor
  · intro hne
    obtain ⟨member, hmem⟩ := List.exists_mem_of_ne_nil _ hne
    exact ⟨member.name, (((layout.areMembers track).mem member).1 hmem).track⟩
  · rintro ⟨name, hname⟩
    obtain ⟨entry, hentry, -⟩ := mem_systemTracks_iff.1 hname
    obtain ⟨cases, hmember⟩ := listedMember_of_track h hname hentry
    exact List.ne_nil_of_mem (((layout.areMembers track).mem _).2 hmember)

omit [Runtime] [Percent] in
theorem firstCell_headers : ∀ name ∈ knownSystems 2,
    (firstCell name systemsHeader = false ∧ firstCell name systemsRule = false) ∧
      firstCell name absentHeader = false ∧ firstCell name absentRule = false := by decide

/-- Of the systems table the filter leaves the row of the system, where it is in there. -/
theorem filter_systemsTable (h : Listed report labels) (layout : Layout report labels)
    (hmember : ListedMember report track ⟨name, entry, cases⟩) :
    (systemsTable (layout.members other)).filter (firstCell name) =
      if other = track then [systemRow ⟨name, entry, cases⟩] else [] := by
  obtain ⟨⟨hheader, hrule⟩, -⟩ := firstCell_headers name (hmember.known h)
  rw [systemsTable, List.filter_cons_of_neg (by simp [hheader]),
    List.filter_cons_of_neg (by simp [hrule])]
  split
  · rename_i heq
    subst heq
    exact filter_systemRows h (layout.areMembers other)
      (((layout.areMembers other).mem _).2 hmember)
  · rename_i hne
    rw [List.filter_eq_nil_iff, List.forall_mem_map]
    intro member hmem hcell
    have hlisted := ((layout.areMembers other).mem member).1 hmem
    have hname : member.name = name := (firstCell_tableRow_iff (hlisted.known h) _).1 hcell
    exact hne (systemTracks_unique (hname ▸ hlisted.track) hmember.track)

/-- No table of systems has a row of a system that was not executed. -/
theorem filter_systemsTable_of_not_executed (h : Listed report labels)
    (layout : Layout report labels) (hget : report.systems.get? name = some entry)
    (hnot : entry.status ≠ .executed) :
    (systemsTable (layout.members other)).filter (firstCell name) = [] := by
  obtain ⟨⟨hheader, hrule⟩, -⟩ := firstCell_headers name (h.known hget)
  rw [systemsTable, List.filter_cons_of_neg (by simp [hheader]),
    List.filter_cons_of_neg (by simp [hrule]), List.filter_eq_nil_iff, List.forall_mem_map]
  intro member hmem hcell
  have hlisted := ((layout.areMembers other).mem member).1 hmem
  have hname : member.name = name := (firstCell_tableRow_iff (hlisted.known h) _).1 hcell
  have hentry : member.entry = entry :=
    Option.some.inj (hlisted.entry.symm.trans (hname ▸ hget))
  exact hnot (hentry ▸ hlisted.executed)

omit [Runtime] [Percent] in
theorem headings_ne : (∀ track other : BenchmarkTrack, matrixHeading other ≠ trackHeading track ∧
      (trackHeading track = trackHeading other ↔ track = other) ∧
      (matrixHeading track = matrixHeading other ↔ track = other)) ∧
    (∀ track : BenchmarkTrack, trackHeading track ≠ absentHeading ∧
      matrixHeading track ≠ absentHeading) ∧
    (∀ track : BenchmarkTrack,
      trackHeading track ≠ lit "## Hard gates (Marciana reference)" ∧
      matrixHeading track ≠ lit "## Hard gates (Marciana reference)") ∧
    absentHeading ≠ lit "## Hard gates (Marciana reference)" := by
  refine ⟨fun track other => ?_, fun track => ?_, fun track => ?_, by decide⟩
  · cases track <;> cases other <;> decide
  · cases track <;> decide
  · cases track <;> decide

omit [Runtime] [Percent] in
/-- A list with one item in the middle is that item if there is nothing around it. -/
theorem append_eq_singleton_iff {α : Type} {l more : List α} {a : α} :
    l ++ [a] ++ more = [a] ↔ l ++ more = [] := by
  constructor
  · intro h
    have hlength := congrArg List.length h
    simp only [List.length_append, List.length_singleton] at hlength
    rw [List.append_eq_nil_iff, ← List.length_eq_zero_iff, ← List.length_eq_zero_iff]
    omega
  · intro h
    obtain ⟨rfl, rfl⟩ := List.append_eq_nil_iff.1 h
    rfl

/-- Of the section of the other track nothing stands there but what its prose shows. -/
theorem filter_sectionRows_trackHeading (h : Listed report labels) (layout : Layout report labels)
    (hmember : ListedMember report track ⟨name, entry, cases⟩) (other : BenchmarkTrack) :
    (layout.sectionRows (trackHeading track) other).filter (firstCell name) =
      (rowsUnder (trackHeading track) (trackHeading other = trackHeading track)
        (harnessProse report other)).filter (firstCell name) ++
      if other = track ∧ endsUnder (trackHeading track) true (harnessProse report track) = true then
        [systemRow ⟨name, entry, cases⟩] else [] := by
  obtain ⟨hheadings, -⟩ := headings_ne
  have hne : layout.members track ≠ [] :=
    List.ne_nil_of_mem (((layout.areMembers track).mem _).2 hmember)
  have hmatrix : ¬ (layout.members other ≠ [] ∧ matrixHeading other = trackHeading track) :=
    fun heq => (hheadings track other).1 heq.2
  rw [Layout.sectionRows, if_neg hmatrix, List.append_nil, List.filter_append]
  refine congrArg _ ?_
  by_cases hother : other = track
  · subst hother
    simp only [hne, decide_true, ne_eq, not_false_eq_true, true_and]
    split
    · rw [filter_systemsTable h layout hmember, if_pos rfl]
    · rfl
  · have hnot : ¬ (other = track ∧
        endsUnder (trackHeading track) true (harnessProse report track) = true) :=
      fun heq => hother heq.1
    rw [if_neg hnot]
    split
    · rw [filter_systemsTable h layout hmember, if_neg hother]
    · rfl

/-- **A system has one row under the heading of its track**: the prose puts none there, or the one
    that it takes away. -/
theorem filter_trackHeading_iff (h : Listed report labels) (layout : Layout report labels)
    (hmember : ListedMember report track ⟨name, entry, cases⟩) :
    (rowsUnder (trackHeading track) false layout.shown).filter (firstCell name) =
        [systemRow ⟨name, entry, cases⟩] ↔
      (proseRows report (trackHeading track)).filter (firstCell name) =
        if endsUnder (trackHeading track) true (harnessProse report track) = true then []
        else [systemRow ⟨name, entry, cases⟩] := by
  obtain ⟨-, habsent, hgates, -⟩ := headings_ne
  have hlast : ¬ (trackHeading track = absentHeading ∧ (absentSystems report).isEmpty = false) :=
    fun heq => (habsent track).1 heq.1
  rw [layout.rowsUnder_shown (hgates track).1, if_neg hlast, List.append_nil, proseRows,
    benchmarkTracks]
  simp only [List.filter_append, filter_sectionRows_trackHeading h layout hmember, List.flatMap_cons,
    List.flatMap_nil, List.append_nil]
  cases hends : endsUnder (trackHeading track) true (harnessProse report track) with
  | false => simp
  | true =>
    cases track with
    | memoryStore =>
      simp only [and_true, if_true, reduceCtorEq, if_false, List.append_nil, ← List.append_assoc]
      rw [append_eq_singleton_iff]
    | agentMemory =>
      simp only [and_true, if_true, reduceCtorEq, if_false, List.append_nil, ← List.append_assoc]
      rw [← List.append_nil (_ ++ [systemRow _]), append_eq_singleton_iff, List.append_nil]

/-- What stands under the heading of a case matrix in the section of a track, the matrix aside: rows
    of its prose, and its systems table if a heading in the prose takes it there. -/
def Layout.besidesMatrix (layout : Layout report labels) (track other : BenchmarkTrack) : List Str :=
  rowsUnder (matrixHeading track) false (harnessProse report other) ++
    if layout.members other ≠ [] ∧
      endsUnder (matrixHeading track) false (harnessProse report other) = true then
      systemsTable (layout.members other) else []

theorem Layout.sectionRows_matrixHeading (layout : Layout report labels)
    (hne : layout.members track ≠ []) (other : BenchmarkTrack) :
    layout.sectionRows (matrixHeading track) other = layout.besidesMatrix track other ++
      if other = track then matrixTable (layout.members track) (layout.rows track) else [] := by
  obtain ⟨hheadings, -⟩ := headings_ne
  have hother : trackHeading other ≠ matrixHeading track := (hheadings other track).1.symm
  simp only [Layout.sectionRows, hother, decide_false, Layout.besidesMatrix]
  refine congrArg _ ?_
  by_cases heq : other = track
  · subst heq
    simp [hne]
  · simp [heq, (hheadings other track).2.2]

theorem Layout.besidesMatrix_eq_nil_iff (h : Listed report labels) (layout : Layout report labels)
    (track other : BenchmarkTrack) :
    layout.besidesMatrix track other = [] ↔
      rowsUnder (matrixHeading track) false (harnessProse report other) = [] ∧
        ∀ name, (name, other) ∈ systemTracks report →
          endsUnder (matrixHeading track) false (harnessProse report other) = false := by
  have htable : systemsTable (layout.members other) ≠ [] := List.cons_ne_nil _ _
  simp only [Layout.besidesMatrix, List.append_eq_nil_iff, ite_eq_right_iff, htable, imp_false,
    not_and, Bool.not_eq_true, members_ne_nil_iff h, forall_exists_index]

/-- **Under the heading of a case matrix there is one table**: nothing of the prose stands there, and
    no systems table. -/
theorem rowsUnder_matrixHeading (h : Listed report labels) (layout : Layout report labels)
    (hmember : ListedMember report track ⟨name, entry, cases⟩) :
    ∃ pre post, rowsUnder (matrixHeading track) false layout.shown =
        pre ++ matrixTable (layout.members track) (layout.rows track) ++ post ∧
      (pre ++ post = [] ↔ proseRows report (matrixHeading track) = [] ∧
        ∀ other name, (name, other) ∈ systemTracks report →
          endsUnder (matrixHeading track) false (harnessProse report other) = false) := by
  obtain ⟨hheadings, habsent, hgates, -⟩ := headings_ne
  have hne : layout.members track ≠ [] :=
    List.ne_nil_of_mem (((layout.areMembers track).mem _).2 hmember)
  have hlast : ¬ (matrixHeading track = absentHeading ∧ (absentSystems report).isEmpty = false) :=
    fun heq => (habsent track).2 heq.1
  have hprose : ∀ other, decide (trackHeading other = matrixHeading track) = false := fun other =>
    decide_eq_false (hheadings other track).1.symm
  rw [layout.rowsUnder_shown (hgates track).2, if_neg hlast, List.append_nil, proseRows,
    benchmarkTracks]
  simp only [layout.sectionRows_matrixHeading hne, List.flatMap_cons, List.flatMap_nil,
    List.append_nil, hprose]
  have hboth : ∀ pre post : List Str, pre ++ post = rowsUnder (matrixHeading track) false
      (headerProse report) ++ layout.besidesMatrix track .memoryStore ++
        layout.besidesMatrix track .agentMemory →
      (pre ++ post = [] ↔ (rowsUnder (matrixHeading track) false (headerProse report) ++
        (rowsUnder (matrixHeading track) false (harnessProse report .memoryStore) ++
          rowsUnder (matrixHeading track) false (harnessProse report .agentMemory)) = []) ∧
        ∀ other name, (name, other) ∈ systemTracks report →
          endsUnder (matrixHeading track) false (harnessProse report other) = false) := by
    rintro pre post heq
    have hall : ∀ {P : BenchmarkTrack → Prop}, (∀ other, P other) ↔ P .memoryStore ∧ P .agentMemory :=
      ⟨fun hP => ⟨hP _, hP _⟩, fun hP other => by cases other <;> simp [hP]⟩
    rw [heq, hall]
    simp only [List.append_eq_nil_iff, layout.besidesMatrix_eq_nil_iff h]
    tauto
  cases track with
  | memoryStore =>
    refine ⟨rowsUnder (matrixHeading .memoryStore) false (headerProse report) ++
      layout.besidesMatrix .memoryStore .memoryStore,
      layout.besidesMatrix .memoryStore .agentMemory, ?_, hboth _ _ rfl⟩
    simp
  | agentMemory =>
    refine ⟨rowsUnder (matrixHeading .agentMemory) false (headerProse report) ++
      layout.besidesMatrix .agentMemory .memoryStore ++
      layout.besidesMatrix .agentMemory .agentMemory, [], ?_, hboth _ _ (List.append_nil _)⟩
    simp

/-- **A system that was not executed has one row under the last heading**: the prose puts none
    there. -/
theorem filter_absentHeading_iff (h : Listed report labels) (layout : Layout report labels)
    (hget : report.systems.get? name = some entry) (hnot : entry.status ≠ .executed) :
    (rowsUnder absentHeading false layout.shown).filter (firstCell name) = [absentRow name entry] ↔
      (proseRows report absentHeading).filter (firstCell name) = [] := by
  obtain ⟨-, habsent, -, hgate⟩ := headings_ne
  have hitem := mem_absentSystems_iff.2 ⟨hget, hnot⟩
  have hempty : (absentSystems report).isEmpty = false := by
    simpa using List.ne_nil_of_mem hitem
  have htable : (absentTable report).filter (firstCell name) = [absentRow name entry] := by
    obtain ⟨-, hheader, hrule⟩ := firstCell_headers name (h.known hget)
    rw [absentTable, List.filter_cons_of_neg (by simp [hheader]),
      List.filter_cons_of_neg (by simp [hrule])]
    exact filter_absentRows h hitem
  have hsection : ∀ other, (layout.sectionRows absentHeading other).filter (firstCell name) =
      (rowsUnder absentHeading (trackHeading other = absentHeading)
        (harnessProse report other)).filter (firstCell name) := by
    intro other
    have hmatrix : ¬ (layout.members other ≠ [] ∧ matrixHeading other = absentHeading) :=
      fun heq => (habsent other).2 heq.2
    rw [Layout.sectionRows, if_neg hmatrix, List.append_nil, List.filter_append]
    split
    · rw [filter_systemsTable_of_not_executed h layout hget hnot, List.append_nil]
    · exact List.append_nil _
  rw [layout.rowsUnder_shown hgate, if_pos ⟨rfl, hempty⟩, proseRows, benchmarkTracks]
  simp only [List.filter_append, hsection, htable, List.flatMap_cons, List.flatMap_nil,
    List.append_nil]
  rw [← List.append_nil (_ ++ [absentRow _ _]), append_eq_singleton_iff, List.append_nil,
    List.append_assoc]

end Under

/-- **A document that is read as it is shown shows every system in its place if and only if** the
    texts in the tables keep apart, and those outside do. -/
theorem shows_shown_iff (h : Listed report labels) (layout : Layout report labels) :
    Shows report layout.shown ↔ TablesApart report ∧ ProseApart report := by
  constructor
  · intro hshows
    obtain ⟨hcalm, hapart⟩ := (calm_shown_iff h layout).1 hshows.apart
    refine ⟨hapart, hcalm, fun hget htrack => ?_, fun htrack => ?_, fun hget hnot => ?_⟩
    · obtain ⟨cases, hcases, hrow⟩ := hshows.row hget htrack
      exact ⟨cases, hcases, (filter_trackHeading_iff h layout ⟨htrack, hget, hcases⟩).1 hrow⟩
    · obtain ⟨entry, hget, -⟩ := mem_systemTracks_iff.1 htrack
      obtain ⟨cases, members, rows, hcases, htable, -, hrows⟩ := hshows.column hget htrack
      have hmember : ListedMember report _ ⟨_, entry, cases⟩ := ⟨htrack, hget, hcases⟩
      obtain ⟨pre, post, heq, hiff⟩ := rowsUnder_matrixHeading h layout hmember
      -- both tables have two rows and one for each case
      have hne := List.ne_nil_of_mem (((layout.areMembers _).mem _).2 hmember)
      have hlength := congrArg List.length (htable.symm.trans heq)
      have hactual := (layout.caseRows _ hne).length_eq
      have hcount := congrArg List.length (hmember.map_label h)
      have hshown := hrows.length_eq
      simp only [matrixTable, List.length_append, List.length_cons, List.length_map]
        at hlength hactual hcount
      refine hiff.1 (List.append_eq_nil_iff.2 ⟨?_, ?_⟩)
      · exact List.length_eq_zero_iff.1 (by omega)
      · exact List.length_eq_zero_iff.1 (by omega)
    · exact (filter_absentHeading_iff h layout hget hnot).1 (hshows.absent hget hnot)
  · rintro ⟨hapart, hprose⟩
    refine ⟨fun hget htrack => ?_, fun hget htrack => ?_, fun hget hnot => ?_,
      (calm_shown_iff h layout).2 ⟨hprose.calm, hapart⟩⟩
    · obtain ⟨cases, hcases, hrow⟩ := hprose.system hget htrack
      exact ⟨cases, hcases, (filter_trackHeading_iff h layout ⟨htrack, hget, hcases⟩).2 hrow⟩
    · obtain ⟨cases, hmember⟩ := listedMember_of_track h htrack hget
      have hmem := ((layout.areMembers _).mem _).2 hmember
      have hlabels : cases.map CaseOutcome.label = labels := hmember.map_label h
      obtain ⟨pre, post, heq, hiff⟩ := rowsUnder_matrixHeading h layout hmember
      obtain ⟨rfl, rfl⟩ := List.append_eq_nil_iff.1 (hiff.2 (hprose.matrix htrack))
      refine ⟨cases, _, _, hmember.cases, heq.trans (List.append_nil _),
        count_caseHeader h (layout.areMembers _) hmem, ?_⟩
      have hids : labels.map Prod.fst = cases.map CaseOutcome.caseId := by
        rw [← hlabels, List.map_map]
        rfl
      have hrows := layout.caseRows _ (List.ne_nil_of_mem hmem)
      rw [hids, List.forall₂_map_left_iff] at hrows
      rwa [hlabels]
    · exact (filter_absentHeading_iff h layout hget hnot).2 (hprose.absent hget hnot)

omit [Runtime] in
theorem rowsUnbroken_of_shows (h : Listed report labels) {document : Str}
    (hshows : Shows report (splitlines document)) : RowsUnbroken report := by
  have htrack : ∀ {name entry}, report.systems.get? name = some entry →
      entry.status = .executed → ∃ track, (name, track) ∈ systemTracks report :=
    fun hget hexecuted => ⟨_, mem_systemTracks_iff.2 ⟨_, hget, hexecuted, rfl⟩⟩
  refine ⟨fun hget hexecuted => ?_, fun hget hexecuted hcases outcome houtcome => ?_,
    fun hget hnot => ?_⟩
  · obtain ⟨track, htrack⟩ := htrack hget hexecuted
    obtain ⟨cases, hcases, hrow⟩ := hshows.row hget htrack
    have hmem := List.mem_of_mem_filter (hrow ▸ List.mem_cons_self)
    exact (unbroken_systemRow_iff h ⟨htrack, hget, hcases⟩).1
      (unbroken_of_mem_splitlines (mem_of_rowsUnder _ hmem))
  · obtain ⟨track, htrack⟩ := htrack hget hexecuted
    obtain ⟨cases, members, rows, hfound, htable, -, hall⟩ := hshows.column hget htrack
    obtain rfl : _ = cases := Option.some.inj (hcases.symm.trans hfound)
    obtain ⟨row, hmem, hrow⟩ := exists_mem_of_forall₂ hall outcome houtcome
    have hline := mem_of_rowsUnder row
      (htable ▸ List.mem_cons_of_mem _ (List.mem_cons_of_mem _ hmem))
    rw [categoryOf_eq]
    exact (unbroken_caseRow_iff hrow).1 (unbroken_of_mem_splitlines hline)
  · have hmem := List.mem_of_mem_filter (hshows.absent hget hnot ▸ List.mem_cons_self)
    exact (unbroken_absentRow_iff h hget).1 (unbroken_of_mem_splitlines (mem_of_rowsUnder _ hmem))

/-- Where no text outside the tables is broken, nothing there is mistaken for a table. -/
theorem proseApart_of_unbroken (h : Listed report labels) (hprose : ProseUnbroken report) :
    ProseApart report := by
  obtain ⟨layout, -⟩ := renderLines_spec h
  -- an attestation on one line begins with a known word, so it is no row and no heading
  have hharness : ∀ track, ∀ line ∈ harnessProse report track,
      isProse line = true ∧ isHeading line = false := by
    intro track line hline
    rw [layout.harnessProse_eq] at hline
    rcases harnessProse_of_unbroken hprose
      (fun member hmem => (((layout.areMembers track).mem member).1 hmem).entry) line hline with
      rfl | ⟨harness, rfl⟩
    · exact ⟨rfl, rfl⟩
    · simp only [harnessLine, List.append_assoc]
      exact ⟨isProse_of_opens (opensProse_append rfl _), rfl⟩
  have hrows : ∀ heading, proseRows report heading = [] := by
    intro heading
    rw [proseRows, rowsUnder_of_prose (isProse_headerProse h hprose), List.nil_append,
      List.flatMap_eq_nil_iff]
    exact fun track _ => rowsUnder_of_prose fun line hline => (hharness track line hline).1
  have hends : ∀ heading inside track,
      endsUnder heading inside (harnessProse report track) = inside := fun heading inside track =>
    endsUnder_of_plain fun line hline => (hharness track line hline).2
  have hcalm : ∀ {lines : List Str}, (∀ line ∈ lines, isProse line = true) →
      EachBlock isProse (Calm (systemTracks report)) lines := by
    intro lines hlines
    rw [← List.append_nil lines, eachBlock_of_forall (calm_nil _) hlines]
    exact eachBlock_nil (calm_nil _)
  refine ⟨⟨hcalm (isProse_headerProse h hprose), fun track => hcalm fun line hline =>
    (hharness track line hline).1⟩, fun hget htrack => ?_, fun _ => ?_, fun _ _ => ?_⟩
  · obtain ⟨cases, hmember⟩ := listedMember_of_track h htrack hget
    refine ⟨cases, hmember.cases, ?_⟩
    rw [hrows, hends, if_pos rfl]
    rfl
  · exact ⟨hrows _, fun other _ _ => hends _ _ other⟩
  · rw [hrows]
    rfl

/-- What a report is rendered as, exactly. -/
theorem rendersRight_iff (h : Listed report labels) : RendersRight report ↔
    RowsUnbroken report ∧ TablesApart report ∧ ProseApart report := by
  obtain ⟨layout, hlines⟩ := renderLines_spec h
  have hread : ∀ {document}, RowsUnbroken report → document = join "\n" (layout.lines ++ [[]]) →
      splitlines document = layout.shown := by
    rintro document hrows rfl
    exact (splitlines_join _).trans (flatMap_lines h hrows layout)
  constructor
  · rintro ⟨document, hdocument, hshows⟩
    have hrows := rowsUnbroken_of_shows h hshows
    have heq := ((renderV2_eq_ok_iff h hrows hlines).1 hdocument).2
    rw [hread hrows heq] at hshows
    exact ⟨hrows, (shows_shown_iff h layout).1 hshows⟩
  · rintro ⟨hrows, hapart, hprose⟩
    refine ⟨_, (renderV2_eq_ok_iff h hrows hlines).2 ⟨⟨hprose.calm, hapart⟩, rfl⟩, ?_⟩
    rw [hread hrows rfl]
    exact (shows_shown_iff h layout).2 ⟨hapart, hprose⟩

end Document

/-!
## Plain adapters

Adapters for examples, of which it is known that their texts meet the conditions.
-/

section Examples

attribute [local instance] cpython Numerics.verbatim

/-- Percents of small numbers. -/
abbrev smallPercent : Percent := ⟨fun correct total => (200 * correct + total) / (2 * total)⟩

attribute [local instance] smallPercent

/-- An adapter whose texts are not broken and name no system. -/
inductive PlainRun : AdapterRun → Prop
  | unconfigured : PlainRun .unconfigured
  | version {text : String} (hunbroken : Unbroken ((lit text).take 64))
      (hsilent : Silent (code ((lit text).take 64))) :
      PlainRun (.printed (versionPayload text).dumps)
  | agent {model : String} (hunbroken : Unbroken ((lit model).take 128)) :
      PlainRun (.printed (agentPayload model).dumps)

theorem oneLine_of_unbroken {text : Str} (h : Unbroken text) : OneLine text := by
  intro hmem
  exact absurd (h _ hmem) (by decide)

section Plain

variable {selected : List Str} {runs : Str → AdapterRun} {report : BenchmarkReport} {name : Str}
  {entry : Entry}

theorem unbroken_harnessItems {model : String} (h : Unbroken ((lit model).take 128)) :
    ∀ key ∈ harnessKeys,
      Unbroken (boundHarnessValue (Json.lookup (harnessItems model) key .null)).toStr := by
  have hrest : ∀ key ∈ harnessKeys.tail, lit key ≠ lit "model" ∧
      Unbroken (boundHarnessValue (Json.lookup harnessRest key .null)).toStr := by decide
  refine List.forall_mem_cons.2 ⟨h, fun key hkey => ?_⟩
  obtain ⟨hne, hunbroken⟩ := hrest key hkey
  have hitem : Json.item? (harnessItems model) key = Json.item? harnessRest key :=
    (item?_cons ..).trans (if_neg hne.symm)
  have hlookup : Json.lookup (harnessItems model) key .null = Json.lookup harnessRest key .null :=
    congrArg (·.getD .null) hitem
  rwa [hlookup]

theorem built_of_plain (hselected : ∀ name ∈ selected, name ∈ knownSystems 2)
    (hruns : ∀ name, PlainRun (runs name)) :
    ∃ report, reportOf plainContext selected [suiteCase "a"] runs 2 plainRunner = .ok report := by
  refine (built_iff bounded_plainContext referenceBounded_plainRunner hselected).2 ?_
  intro entry _ _
  have hplain := hruns entry.1
  generalize runs entry.1 = run at hplain ⊢
  cases hplain with
  | unconfigured => trivial
  | version hunbroken _ =>
    exact (runBounded_versionPayload_iff _).2 (oneLine_of_unbroken hunbroken)
  | agent hunbroken => exact runBounded_agentPayload _ (oneLine_of_unbroken hunbroken)

variable (hselected : ∀ name ∈ selected, name ∈ knownSystems 2)
  (hruns : ∀ name, PlainRun (runs name))
  (hreport : reportOf plainContext selected [suiteCase "a"] runs 2 plainRunner = .ok report)

include hselected hruns hreport

theorem plain_of_executed (hget : report.systems.get? name = some entry)
    (hexecuted : entry.status = .executed) :
    Unbroken entry.adapterVersion ∧ Silent (code entry.adapterVersion) ∧
      ∀ harness, entry.harness = some harness → ∃ model : String,
        Unbroken ((lit model).take 128) ∧ harness = keepHarness (harnessItems model) := by
  have hprotocol : Unbroken adapterProtocol ∧ Silent (code adapterProtocol) := by decide
  rcases entry_cases rfl hselected hreport hget hexecuted with ⟨-, rfl⟩ | hread
  · exact ⟨hprotocol.1, hprotocol.2, fun harness hharness => nomatch hharness⟩
  · obtain ⟨system, -, -, -, found, ⟨stdout, hrun, hparse⟩, hread⟩ := hread
    rw [hread.adapterVersion, hread.harness]
    have hplain := hruns system.1
    rw [hrun] at hplain
    cases hplain with
    | version hunbroken hsilent =>
      obtain ⟨accepted, haccepted, hversion, -, hharness⟩ := versionPayload_accepted _
      obtain rfl : accepted = found := Except.ok.inj (haccepted.symm.trans hparse)
      rw [hversion, hharness]
      exact ⟨hunbroken, hsilent, fun harness hnone => nomatch hnone⟩
    | agent hunbroken =>
      obtain ⟨accepted, haccepted, hversion, -, hharness⟩ := agentPayload_accepted _
      obtain rfl : accepted = found := Except.ok.inj (haccepted.symm.trans hparse)
      rw [hversion, hharness]
      refine ⟨hprotocol.1, hprotocol.2, fun harness hsome => ⟨_, hunbroken, ?_⟩⟩
      exact (Option.some.inj hsome).symm

/-- A system that was not executed lacks its command, and the detail is the name of a variable. -/
theorem detail_of_plain (hget : report.systems.get? name = some entry)
    (hnot : entry.status ≠ .executed) :
    entry.harness = none ∧ ∃ system ∈ externalSystems 2, detail entry = system.2 := by
  obtain ⟨systems, hsystems, -, rfl⟩ := (reportOf_eq_ok_iff hselected).1 hreport
  obtain ⟨found, hfound, -, rfl⟩ := get?_assembleReport rfl hget
  have hstatus : found.status ≠ .executed := by
    intro hexecuted
    rw [if_pos hexecuted] at hnot
    exact hnot hexecuted
  rw [if_neg hstatus]
  rcases (mem_selectedReports_iff hsystems).1 hfound with ⟨-, rfl⟩ | ⟨system, hsystem, -, hrun⟩
  · exact absurd rfl hstatus
  have hplain := hruns system.1
  generalize runs system.1 = run at hplain hrun
  cases hplain with
  | unconfigured =>
    have hvariable : ∀ system ∈ externalSystems 2, system.2 ≠ [] := by decide
    obtain rfl := Except.ok.inj hrun
    refine ⟨rfl, system, hsystem, ?_⟩
    simp [detail, unavailableReport, SystemReport.asDict, join, hvariable system hsystem]
  | version _ _ =>
    obtain ⟨accepted, haccepted, -⟩ := versionPayload_accepted _
    rw [executeExternal_of_accepted _ _ ⟨_, rfl, haccepted⟩] at hrun
    exact absurd (congrArg SystemReport.status (Except.ok.inj hrun)).symm hstatus
  | agent _ =>
    obtain ⟨accepted, haccepted, -⟩ := agentPayload_accepted _
    rw [executeExternal_of_accepted _ _ ⟨_, rfl, haccepted⟩] at hrun
    exact absurd (congrArg SystemReport.status (Except.ok.inj hrun)).symm hstatus

omit hruns in
theorem case_of_plain {cases : List CaseOutcome} (hget : report.systems.get? name = some entry)
    (hexecuted : entry.status = .executed) (hcases : entry.cases = some cases) :
    ∀ outcome ∈ cases, outcome.caseId = lit "a" ∧
      categoryOf cases outcome.caseId = lit "retrieval" := by
  intro outcome houtcome
  obtain ⟨found, hfound, hlabels⟩ :=
    (listed_of_reportOf rfl hselected hreport).cases hget hexecuted
  obtain rfl : cases = found := Option.some.inj (hcases.symm.trans hfound)
  have hmem : outcome.label ∈ cases.map CaseOutcome.label := List.mem_map_of_mem houtcome
  rw [hlabels] at hmem
  have hid : outcome.caseId = lit "a" := congrArg Prod.fst (List.mem_singleton.1 hmem)
  refine ⟨hid, ?_⟩
  rw [categoryOf_eq, hlabels, hid]
  decide

/-- No text outside the tables of such a report has a line break. -/
theorem proseUnbroken_of_plain : ProseUnbroken report := by
  have hharness : ∀ {name entry harness}, report.systems.get? name = some entry →
      entry.harness = some harness → ∀ key ∈ harnessKeys,
        Unbroken (Json.lookup harness.items key .null).toStr := by
    intro name entry harness hget hsome
    by_cases hexecuted : entry.status = .executed
    · obtain ⟨-, -, hmodel⟩ := plain_of_executed hselected hruns hreport hget hexecuted
      obtain ⟨model, hunbroken, rfl⟩ := hmodel harness hsome
      intro key hkey
      rw [lookup_keepHarness _ hkey]
      exact unbroken_harnessItems hunbroken key hkey
    · rw [(detail_of_plain hselected hruns hreport hget hexecuted).1] at hsome
      cases hsome
  obtain ⟨systems, -, -, rfl⟩ := (reportOf_eq_ok_iff hselected).1 hreport
  exact ⟨unbroken_ofList (by decide), unbroken_nil, unbroken_nil, hharness⟩

theorem rowsUnbroken_of_plain : RowsUnbroken report := by
  have hdetail : ∀ system ∈ externalSystems 2, Unbroken system.2 := by decide
  refine ⟨fun hget hexecuted => ?_, fun hget hexecuted hcases outcome houtcome => ?_,
    fun hget hnot => ?_⟩
  · exact (plain_of_executed hselected hruns hreport hget hexecuted).1
  · obtain ⟨hid, hcategory⟩ :=
      case_of_plain hselected hreport hget hexecuted hcases outcome houtcome
    rw [hcategory, hid]
    decide
  · obtain ⟨-, system, hsystem, heq⟩ := detail_of_plain hselected hruns hreport hget hnot
    rw [heq]
    exact hdetail system hsystem

theorem tablesApart_of_plain : TablesApart report := by
  have hlisted := listed_of_reportOf rfl hselected hreport
  have hexecuted : ∀ {name entry track}, (name, track) ∈ systemTracks report →
      report.systems.get? name = some entry → entry.status = .executed := by
    intro name entry track htrack hget
    obtain ⟨found, hfound, hstatus, -⟩ := mem_systemTracks_iff.1 htrack
    rw [hget] at hfound
    cases hfound
    exact hstatus
  have hdetail : ∀ system ∈ externalSystems 2, Silent system.2 := by decide
  refine ⟨fun htrack hget hnames => ?_, fun htrack hget hcases outcome houtcome hnames => ?_,
    fun hget hnot _ _ hnames _ => ?_⟩
  · obtain ⟨-, hsilent, -⟩ :=
      plain_of_executed hselected hruns hreport hget (hexecuted htrack hget)
    exact absurd hnames (not_names_of_silent hlisted hsilent)
  · obtain ⟨hid, hcategory⟩ := case_of_plain hselected hreport hget (hexecuted htrack hget) hcases
      outcome houtcome
    rw [hcategory, hid] at hnames
    have hsilent : Silent (code (lit "a")) ∧ Silent (lit "retrieval") := by decide
    exact (hnames.elim (not_names_of_silent hlisted hsilent.1)
      (not_names_of_silent hlisted hsilent.2)).elim
  · obtain ⟨-, system, hsystem, heq⟩ := detail_of_plain hselected hruns hreport hget hnot
    rw [heq] at hnames
    exact absurd hnames (not_names_of_silent hlisted (hdetail system hsystem))

end Plain

/-!
## A version that is the name of a system

The same two systems, with a version that is the name of the other track's system, and with one
that has the name in it.
-/

/-- A memory store that prints this version, and an agent loop. -/
def bothRuns (version : String) (name : Str) : AdapterRun :=
  if name = lit "mem0" then .printed (versionPayload version).dumps
  else if name = lit "letta-agent" then .printed (agentPayload "llama3.1").dumps
  else .unconfigured

end Examples

end AdversarialCognition.Report
