import AdversarialCognition.Report.Render

/-!
# Tables read back

What the check of the renderer makes of a document: its tables are the blocks of lines that begin
with a bar, and a row is read cell by cell (`rowTokens_tableRow`). A cell may hold several cells,
if the text in it has a bar, and it names a system if one of them is the name of one.

## Two halves

The first half is about any document. The loop over its lines checks a block when it ends, and
`checkTables_eq_ok_iff` has it as a property of every block (`EachBlock`), without the loop: in
each of them the rows name systems of one track at most (`Calm`).

The second half is about a row that the renderer wrote. Cells are joined by bars, with a blank on
either side, so splitting at bars gives the cells back, each of them split further if its text has
bars. A text by itself is then what can be asked about: which systems does it name (`Names`), and
does it name any that is known (`Silent`)? Silence is decidable on a text, and it does not depend
on a report.
-/

namespace AdversarialCognition.Report

open Py Py.Str Json

/-!
## Which tables are refused

The loop of the check, without the loop: a document passes if each of its tables names systems of
one track at most.
-/

section Check

variable {tracks : List (Str × BenchmarkTrack)} {rows lines table : List Str}

/-- The rows name systems of one track at most. -/
def Calm (tracks : List (Str × BenchmarkTrack)) (rows : List Str) : Prop :=
  ∀ track ∈ seenTracks tracks rows, ∀ other ∈ seenTracks tracks rows, track = other

/-- A line that is in no table. -/
def isProse (line : Str) : Bool := !isTableLine line

/-- A track is seen if a cell of a row is the name of a system in it. -/
theorem mem_seenTracks_iff {track : BenchmarkTrack} : track ∈ seenTracks tracks rows ↔
    ∃ row ∈ rows, ∃ token ∈ rowTokens row, tracks.lookup token = some track := by
  simp only [seenTracks, List.mem_dedup, List.mem_filterMap, List.mem_flatMap]
  constructor
  · rintro ⟨token, ⟨row, hrow, htoken⟩, htrack⟩
    exact ⟨row, hrow, token, htoken, htrack⟩
  · rintro ⟨row, hrow, token, htoken, htrack⟩
    exact ⟨token, ⟨row, hrow, htoken⟩, htrack⟩

theorem calm_nil (tracks : List (Str × BenchmarkTrack)) : Calm tracks [] :=
  fun _ h => nomatch h

theorem length_le_one_iff {α : Type*} {l : List α} (h : l.Nodup) :
    l.length ≤ 1 ↔ ∀ a ∈ l, ∀ b ∈ l, a = b := by
  constructor
  · intro hlength a ha b hb
    obtain ⟨c, rfl⟩ := List.length_eq_one_iff.1 (le_antisymm hlength (List.length_pos_of_mem ha))
    rw [List.mem_singleton.1 ha, List.mem_singleton.1 hb]
  · intro hall
    match l with
    | [] => exact Nat.zero_le _
    | [a] => exact le_rfl
    | a :: b :: l =>
      have heq := hall a List.mem_cons_self b (List.mem_cons_of_mem _ List.mem_cons_self)
      exact absurd (heq ▸ List.mem_cons_self) (List.nodup_cons.1 h).1

theorem nodup_seenTracks : (seenTracks tracks rows).Nodup := List.nodup_dedup _

theorem checkTable_eq_ok_iff : checkTable tracks rows = .ok () ↔ Calm tracks rows := by
  rw [Calm, ← length_le_one_iff nodup_seenTracks, checkTable]
  by_cases h : 1 < (seenTracks tracks rows).length
  · simp only [h, if_true, reduceCtorEq, false_iff]
    exact Nat.not_le.2 h
  · simp only [h, if_false, true_iff]
    exact Nat.not_lt.1 h

theorem checkTables_eq_ok_iff (htable : ∀ line ∈ table, isProse line = false) :
    checkTables tracks table (lines ++ [[]]) = .ok () ↔
      EachBlock isProse (Calm tracks) (table ++ lines) := by
  induction lines generalizing table with
  | nil =>
    have hblank : isTableLine [] = false := rfl
    rw [List.append_nil, eachBlock_singleton htable, ← checkTable_eq_ok_iff]
    by_cases hempty : table = []
    · subst hempty
      simp [checkTables, hblank, checkTable_eq_ok_iff, calm_nil]
    · cases hcheck : checkTable tracks table <;>
        simp [checkTables, hblank, hempty, hcheck, bind, Except.bind]
  | cons line lines ih =>
    by_cases hline : isTableLine line = true
    · have hnext : ∀ l ∈ table ++ [line], isProse l = false := by
        rw [List.forall_mem_append]
        exact ⟨htable, List.forall_mem_singleton.2 (by rw [isProse, hline]; rfl)⟩
      rw [List.cons_append, checkTables, if_pos hline, ih hnext, List.append_assoc,
        List.singleton_append]
    · have hprose : isProse line = true := by rw [isProse, Bool.eq_false_of_not_eq_true hline]; rfl
      rw [eachBlock_append hprose, eachBlock_singleton htable, ← checkTable_eq_ok_iff,
        ← List.nil_append lines, ← ih (List.forall_mem_nil _), List.nil_append]
      by_cases hempty : table = []
      · subst hempty
        have hnil : checkTable tracks [] = .ok () := checkTable_eq_ok_iff.2 (calm_nil _)
        simp [checkTables, hline, hnil]
      · cases hcheck : checkTable tracks table <;>
          simp [checkTables, hline, hempty, hcheck, bind, Except.bind]

end Check

/-!
## Reading a row

A row is stripped of its bars and split at those that are left, and each cell is stripped of
blanks and backticks. So what the check reads of a row that was written are the cells, each split
at the bars in its text.
-/

/-- What the check reads in the place of a cell. -/
def cellTokens (text : Str) : List Str :=
  (split bar text).map fun raw => stripChar backtick raw.strip

/-- **A row is read cell by cell**, if none of them begins or ends with a bar. -/
theorem rowTokens_join {fields : List Str} (hne : fields ≠ [])
    (hfields : ∀ field ∈ fields, ∃ (h : field ≠ []), field.head h ≠ bar ∧ field.getLast h ≠ bar) :
    rowTokens (bar :: join "|" fields ++ [bar]) = fields.flatMap cellTokens := by
  have hstrip : strip (bar :: join "|" fields ++ [bar]) = bar :: join "|" fields ++ [bar] := by
    refine stripOf_eq_self (List.cons_ne_nil _ _) ?_ ?_
    · rfl
    · rw [List.getLast_append_singleton]
      rfl
  obtain ⟨hjoin, hhead, hlast⟩ := ends_join (P := (· ≠ bar)) "|" hne hfields
  have hbars : stripChar bar (bar :: join "|" fields ++ [bar]) = join "|" fields := by
    rw [stripChar, stripOf_surround (p := (· == bar)) (beq_self_eq_true bar) (beq_self_eq_true bar)]
    exact stripOf_eq_self hjoin (beq_eq_false_iff_ne.2 hhead) (beq_eq_false_iff_ne.2 hlast)
  have hsplit : split bar (join "|" fields) = fields.flatMap (split bar) := split_join hne
  rw [rowTokens, hstrip, hbars, hsplit, List.map_flatMap]
  rfl

/-- A cell stands between blanks. -/
def padded (text : Str) : Str := lit " " ++ text ++ lit " "

theorem tableRow_eq {cells : List Str} (h : cells ≠ []) :
    tableRow cells = bar :: join "|" (cells.map padded) ++ [bar] := by
  have hjoin : ∀ cells : List Str, cells ≠ [] →
      lit " " ++ join " | " cells ++ lit " " = join "|" (cells.map padded) := by
    intro cells hne
    induction cells with
    | nil => exact absurd rfl hne
    | cons text cells ih =>
      cases cells with
      | nil => simp [join, padded]
      | cons next cells =>
        have hrest := ih (List.cons_ne_nil _ _)
        have hsep : lit " | " = lit " " ++ lit "|" ++ lit " " := by decide
        rw [List.map_cons, List.map_cons, join_cons_cons, join_cons_cons, ← List.map_cons, ← hrest,
          padded, hsep]
        simp only [List.append_assoc]
  have hrow : tableRow cells = bar :: (lit " " ++ join " | " cells ++ lit " ") ++ [bar] := by
    have hopen : lit "| " = bar :: lit " " := by decide
    have hclose : lit " |" = lit " " ++ [bar] := by decide
    simp only [tableRow, hopen, hclose, List.cons_append, List.append_assoc]
  rw [hrow, hjoin cells h]

/-- **A row is read as its cells are**, one after the other. -/
theorem rowTokens_tableRow {cells : List Str} (h : cells ≠ []) :
    rowTokens (tableRow cells) = cells.flatMap fun text => cellTokens (padded text) := by
  rw [tableRow_eq h, rowTokens_join (mt List.map_eq_nil_iff.1 h), List.flatMap_map]
  refine List.forall_mem_map.2 fun text _ => ⟨?_, ?_, ?_⟩
  · exact List.cons_ne_nil _ _
  · exact show CodePoint.ofChar ' ' ≠ bar by decide
  · have hlast : padded text = lit " " ++ text ++ [CodePoint.ofChar ' '] := rfl
    simp only [hlast, List.getLast_append_singleton]
    decide

/-!
## Which cells name a system

A text names a system if one of the cells it is read as is the name. A known name is read as
itself, and a numeral as nothing that is a name.
-/

section Names

variable {report : BenchmarkReport} {text token name : Str} {track : BenchmarkTrack}
  {cells row : List Str} {rows : List Str}

/-- The text, as a cell, names a system of the track. -/
def Names (report : BenchmarkReport) (text : Str) (track : BenchmarkTrack) : Prop :=
  ∃ token ∈ cellTokens (padded text), (token, track) ∈ systemTracks report

/-- The text, as a cell, is the name of no known system. -/
def Silent (text : Str) : Prop := ∀ token ∈ cellTokens (padded text), token ∉ knownSystems 2

instance (text : Str) : Decidable (Silent text) :=
  inferInstanceAs (Decidable (∀ token ∈ cellTokens (padded text), token ∉ knownSystems 2))

/-- Where no key is repeated, to look up is to be in the list. -/
theorem lookup_eq_some_iff {α β : Type*} [BEq α] [LawfulBEq α] {l : List (α × β)} {a : α} {b : β}
    (h : (l.map Prod.fst).Nodup) : l.lookup a = some b ↔ (a, b) ∈ l := by
  induction l with
  | nil => simp
  | cons item l ih =>
    obtain ⟨key, value⟩ := item
    obtain ⟨hkey, hrest⟩ := List.nodup_cons.1 h
    rw [List.lookup_cons, List.mem_cons, Prod.mk.injEq]
    by_cases heq : a = key
    · subst heq
      have hnot : (a, b) ∉ l := fun hmem => by
        have hname : a ∈ l.map Prod.fst := List.mem_map_of_mem (f := Prod.fst) hmem
        exact hkey hname
      simp [hnot, eq_comm]
    · rw [beq_eq_false_iff_ne.2 heq]
      simp only [heq, false_and, false_or]
      exact ih hrest

/-- No system is named twice, as none is twice in the dictionary. -/
theorem nodup_systemTracks (report : BenchmarkReport) :
    ((systemTracks report).map Prod.fst).Nodup := by
  rw [systemTracks, List.map_map]
  exact report.systems.nodupKeys.sublist (List.filter_sublist.map _)

theorem mem_seenTracks_iff_names : track ∈ seenTracks (systemTracks report) rows ↔
    ∃ row ∈ rows, ∃ token ∈ rowTokens row, (token, track) ∈ systemTracks report := by
  simp only [mem_seenTracks_iff, lookup_eq_some_iff (nodup_systemTracks report)]

theorem names_tableRow_iff {cells : List Str} (h : cells ≠ []) :
    (∃ token ∈ rowTokens (tableRow cells), (token, track) ∈ systemTracks report) ↔
      ∃ text ∈ cells, Names report text track := by
  rw [rowTokens_tableRow h]
  simp only [List.mem_flatMap, Names]
  constructor
  · rintro ⟨token, ⟨text, htext, htoken⟩, htrack⟩
    exact ⟨text, htext, token, htoken, htrack⟩
  · rintro ⟨text, htext, token, htoken, htrack⟩
    exact ⟨token, ⟨text, htext, htoken⟩, htrack⟩

theorem cellTokens_known : ∀ name ∈ knownSystems 2, cellTokens (padded name) = [name] := by decide

theorem names_known_iff (h : name ∈ knownSystems 2) :
    Names report name track ↔ (name, track) ∈ systemTracks report := by
  simp only [Names, cellTokens_known name h, List.mem_singleton, exists_eq_left]

theorem cellTokens_of_notMem (h : bar ∉ text) :
    cellTokens (padded text) = [stripChar backtick text.strip] := by
  have hbar : bar ∉ padded text := by
    have hblank : bar ∉ lit " " := by decide
    simp only [padded, List.mem_append, not_or]
    exact ⟨⟨hblank, h⟩, hblank⟩
  have hstrip : strip (padded text) = text.strip := stripOf_surround (by decide) (by decide) text
  rw [cellTokens, split_of_notMem hbar, List.map_singleton, hstrip]

/-- A number, or what begins with one, is the name of no system. -/
theorem silent_of_digit {c : CodePoint} (hlow : 0x30 ≤ c.val) (hhigh : c.val ≤ 0x39)
    (h : bar ∉ c :: text) : Silent (c :: text) := by
  have hspace : isspace c = false := by
    simp only [isspace, Bool.or_eq_false_iff, Bool.and_eq_false_imp, decide_eq_true_eq,
      decide_eq_false_iff_not]
    omega
  have htick : (c == backtick) = false := by
    refine beq_eq_false_iff_ne.2 fun heq => ?_
    rw [heq] at hhigh
    exact absurd hhigh (by decide)
  intro token htoken hknown
  rw [cellTokens_of_notMem h, List.mem_singleton] at htoken
  have hstrip : (strip (c :: text)).head? = some c := head?_stripOf hspace text
  obtain ⟨rest, hrest⟩ := List.head?_eq_some_iff.1 hstrip
  have hhead : token.head? = some c := by
    rw [htoken, hrest]
    exact head?_stripOf (p := (· == backtick)) htick rest
  have hletter : ∀ name ∈ knownSystems 2, name.head?.all fun c => 0x61 ≤ c.val := by decide
  have hge := hletter token hknown
  rw [hhead, Option.all_some, decide_eq_true_iff] at hge
  omega

end Names

end AdversarialCognition.Report
