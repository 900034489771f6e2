import AdversarialCognition.Lib.Lines

/-!
# Text files

What reading a text file does to its line ends, and its lines with their ends kept. A text without
carriage returns is taken apart at its first line break, and so line by line.

A file that is opened as text has no carriage return left in it, and this is why the two-character
line end matters in no result about files. `lines_induction` is the induction that comes of it: a
text has no line break, or a first one with a text behind it. A property of files is shown for the
two cases, and nothing is ever said of positions.

## Two ways to take a text apart

At newlines, or by `splitlines`, which knows of other line breaks. A file that was written with
one newline behind every record is taken apart alike by both if no record has another line break
in it. `filter_splitlines_eq_splitOn` is this for the lines that are not blank, which are those
that the loaders look at.
-/

namespace Py.Str

/-- What is read of a text; `cr` says whether the last character was a carriage return, and
    then a newline has been read with it. -/
def newlinesFrom (cr : Bool) : Str → Str
  | [] => []
  | c :: s =>
      if c = carriageReturn then newline :: newlinesFrom true s
      else if cr = true ∧ c = newline then newlinesFrom false s
      else c :: newlinesFrom false s

/-- The characters that `read_text` gives of a text: every line ends in a newline. Only carriage
    returns are touched, and the other line breaks stay. -/
def universalNewlines (s : Str) : Str := newlinesFrom false s

theorem notMem_newlinesFrom (cr : Bool) (s : Str) : carriageReturn ∉ newlinesFrom cr s := by
  induction s generalizing cr with
  | nil => exact List.not_mem_nil
  | cons c s ih =>
    unfold newlinesFrom
    split
    · exact List.not_mem_cons_of_ne_of_not_mem (by decide) (ih true)
    · split
      · exact ih false
      · rename_i hc _
        exact List.not_mem_cons_of_ne_of_not_mem (Ne.symm hc) (ih false)

theorem notMem_universalNewlines (s : Str) : carriageReturn ∉ universalNewlines s :=
  notMem_newlinesFrom false s

theorem universalNewlines_of_notMem {s : Str} (h : carriageReturn ∉ s) : universalNewlines s = s := by
  induction s with
  | nil => rfl
  | cons c s ih =>
    rw [List.mem_cons, not_or] at h
    rw [universalNewlines, newlinesFrom, if_neg (Ne.symm h.1), if_neg fun hcr => Bool.false_ne_true hcr.1]
    exact congrArg _ (ih h.2)

/-!
## Lines with their ends

`splitlines(keepends=True)`, by the first line break of the text. The lines with their ends are
all of it.
-/

/-- The lines of a text of which `line` is read, each with its end. -/
def keepEndsFrom (line : Str) : Str → List Str
  | [] => if line.isEmpty then [] else [line]
  | [c] => [line ++ [c]]
  | c :: d :: s =>
      if c = carriageReturn ∧ d = newline then (line ++ [c, d]) :: keepEndsFrom [] s
      else if isLineBreak c then (line ++ [c]) :: keepEndsFrom [] (d :: s)
      else keepEndsFrom (line ++ [c]) (d :: s)

/-- `s.splitlines(keepends=True)` -/
def splitlinesKeepEnds (s : Str) : List Str := keepEndsFrom [] s

theorem keepEndsFrom_break (line : Str) {s t : Str} {c : CodePoint} (hs : Unbroken s)
    (hc : isLineBreak c = true) (hreturn : c ≠ carriageReturn) :
    keepEndsFrom line (s ++ c :: t) = (line ++ s ++ [c]) :: keepEndsFrom [] t := by
  induction s generalizing line with
  | nil =>
    cases t with
    | nil => simp [keepEndsFrom]
    | cons d t => simp [keepEndsFrom, hreturn, hc]
  | cons x s ih =>
    obtain ⟨hx, hs⟩ := List.forall_mem_cons.1 hs
    obtain ⟨d, u, hu⟩ := List.exists_cons_of_ne_nil (List.append_ne_nil_of_right_ne_nil s
      (List.cons_ne_nil c t))
    have hxreturn : x ≠ carriageReturn := by
      rintro rfl
      exact absurd hx (by decide)
    have hrest := ih (line ++ [x]) hs
    rw [hu] at hrest
    rw [List.cons_append, hu, keepEndsFrom, if_neg fun h => hxreturn h.1, if_neg (by simp [hx]), hrest]
    simp

theorem keepEndsFrom_of_unbroken (line : Str) {s : Str} (hs : Unbroken s) :
    keepEndsFrom line s = if (line ++ s).isEmpty then [] else [line ++ s] := by
  induction s generalizing line with
  | nil => simp [keepEndsFrom]
  | cons x s ih =>
    obtain ⟨hx, hs⟩ := List.forall_mem_cons.1 hs
    have hxreturn : x ≠ carriageReturn := by
      rintro rfl
      exact absurd hx (by decide)
    cases s with
    | nil => simp [keepEndsFrom]
    | cons d s =>
      rw [keepEndsFrom, if_neg fun h => hxreturn h.1, if_neg (by simp [hx]), ih _ hs]
      simp

/-- **The first line of a text** that has a line break. -/
theorem splitlinesKeepEnds_break {s t : Str} {c : CodePoint} (hs : Unbroken s)
    (hc : isLineBreak c = true) (hreturn : c ≠ carriageReturn) :
    splitlinesKeepEnds (s ++ c :: t) = (s ++ [c]) :: splitlinesKeepEnds t :=
  keepEndsFrom_break [] hs hc hreturn

theorem splitlinesKeepEnds_of_unbroken {s : Str} (hs : Unbroken s) :
    splitlinesKeepEnds s = if s.isEmpty then [] else [s] :=
  keepEndsFrom_of_unbroken [] hs

theorem unbroken_or_break (s : Str) : Unbroken s ∨
    ∃ line c rest, s = line ++ c :: rest ∧ Unbroken line ∧ isLineBreak c = true := by
  induction s with
  | nil => exact .inl unbroken_nil
  | cons x s ih =>
    cases hx : isLineBreak x with
    | true => exact .inr ⟨[], x, s, rfl, unbroken_nil, hx⟩
    | false =>
      rcases ih with hs | ⟨line, c, rest, rfl, hline, hc⟩
      · exact .inl (List.forall_mem_cons.2 ⟨hx, hs⟩)
      · exact .inr ⟨x :: line, c, rest, rfl, List.forall_mem_cons.2 ⟨hx, hline⟩, hc⟩

/-- **Line by line**: what holds of a text without line breaks, and of a text if it holds of
    what is behind its first line, holds of every text without carriage returns. -/
theorem lines_induction {P : (s : Str) → carriageReturn ∉ s → Prop}
    (last : ∀ s h, Unbroken s → P s h)
    (line : ∀ s c t h (ht : carriageReturn ∉ t), Unbroken s → isLineBreak c = true →
      c ≠ carriageReturn → P t ht → P (s ++ c :: t) h) (s : Str) (h : carriageReturn ∉ s) : P s h := by
  induction hn : s.length using Nat.strongRecOn generalizing s with
  | ind n ih =>
    rcases unbroken_or_break s with hs | ⟨u, c, t, rfl, hu, hc⟩
    · exact last s h hs
    · have hcr : c ≠ carriageReturn := by
        rintro rfl
        exact h (by simp)
      have ht : carriageReturn ∉ t := fun hmem => h (by simp [hmem])
      refine line u c t h ht hu hc hcr (ih t.length ?_ t ht rfl)
      rw [← hn, List.length_append, List.length_cons]
      omega

/-- The lines with their ends are all of the text. So whoever writes them back unchanged writes
    the text. -/
theorem flatten_splitlinesKeepEnds {s : Str} (h : carriageReturn ∉ s) :
    (splitlinesKeepEnds s).flatten = s := by
  induction s, h using lines_induction with
  | last s _ hs =>
    rw [splitlinesKeepEnds_of_unbroken hs]
    cases s with
    | nil => rfl
    | cons c s => exact List.append_nil _
  | line s c t _ _ hs hc hreturn ih =>
    rw [splitlinesKeepEnds_break hs hc hreturn, List.flatten_cons, ih, List.append_assoc,
      List.singleton_append]

/-!
## Lines that are not blank

What is left of the two ways to take a text apart when blank lines are dropped.
-/

/-- `line.strip()` is true. -/
def nonblank (line : Str) : Bool := !(strip line).isEmpty

theorem nonblank_eq_false_iff {s : Str} : nonblank s = false ↔ ∀ c ∈ s, isspace c = true := by
  have hstrip : strip s = [] ↔ ∀ c ∈ s, isspace c = true := by
    rw [strip, List.reverse_eq_nil_iff, List.dropWhile_eq_nil_iff]
    constructor
    · intro h
      by_contra hnot
      have hne : s.dropWhile isspace ≠ [] := fun hnil => hnot (List.dropWhile_eq_nil_iff.mp hnil)
      have hhead := List.head_dropWhile_not isspace hne
      rw [h _ (List.mem_reverse.mpr (List.head_mem hne))] at hhead
      cases hhead
    · intro h c hc
      exact h c ((List.dropWhile_suffix isspace).subset (List.mem_reverse.mp hc))
  rw [nonblank, Bool.not_eq_false', List.isEmpty_iff, hstrip]

theorem isspace_of_isLineBreak {c : CodePoint} (h : isLineBreak c = true) : isspace c = true := by
  simp only [isLineBreak, isspace, Bool.or_eq_true, Bool.and_eq_true, decide_eq_true_eq] at h ⊢
  omega

theorem mem_of_mem_splitlinesFrom {line l : Str} {cr : Bool} {s : Str} {c : CodePoint}
    (hl : l ∈ splitlinesFrom line cr s) (hc : c ∈ l) : c ∈ line ∨ c ∈ s := by
  induction s generalizing line cr with
  | nil =>
    unfold splitlinesFrom at hl
    split at hl
    · cases hl
    · rw [List.mem_singleton] at hl
      exact .inl (hl ▸ hc)
  | cons x s ih =>
    unfold splitlinesFrom at hl
    split at hl
    · exact .inr (List.mem_cons_of_mem _ ((ih hl).resolve_left List.not_mem_nil))
    · split at hl
      · rcases List.mem_cons.mp hl with rfl | hl
        · exact .inl hc
        · exact .inr (List.mem_cons_of_mem _ ((ih hl).resolve_left List.not_mem_nil))
      · rcases ih hl with hmem | hmem
        · rcases List.mem_append.mp hmem with hmem | hmem
          · exact .inl hmem
          · exact .inr (List.mem_singleton.mp hmem ▸ List.mem_cons_self)
        · exact .inr (List.mem_cons_of_mem _ hmem)

theorem splitlinesFrom_unbroken_append (line : Str) {s : Str} (hs : Unbroken s) (t : Str) :
    splitlinesFrom line false (s ++ t) = splitlinesFrom (line ++ s) false t := by
  induction s generalizing line with
  | nil => rw [List.append_nil, List.nil_append]
  | cons x s ih =>
    obtain ⟨hx, hs⟩ := List.forall_mem_cons.1 hs
    rw [List.cons_append, splitlinesFrom, if_neg (fun h => Bool.false_ne_true h.1), hx, if_neg Bool.false_ne_true,
      ih _ hs, List.append_assoc]
    rfl

theorem splitlines_of_unbroken {s : Str} (hs : Unbroken s) :
    splitlines s = if s.isEmpty then [] else [s] := by
  have h := splitlinesFrom_unbroken_append [] hs []
  rw [List.append_nil] at h
  exact h

/-- **The first line of a text** that has a line break. -/
theorem splitlines_break {s t : Str} {c : CodePoint} (hs : Unbroken s) (hc : isLineBreak c = true)
    (hreturn : c ≠ carriageReturn) : splitlines (s ++ c :: t) = s :: splitlines t := by
  have hcr : decide (c = carriageReturn) = false := decide_eq_false hreturn
  rw [splitlines, splitlinesFrom_unbroken_append _ hs, splitlinesFrom, if_neg (fun h => Bool.false_ne_true h.1), hc,
    if_pos rfl, hcr]
  rfl

/-- A newline at the end of a text adds an empty line at most, which is blank. -/
theorem filter_linesOf (s : Str) : (linesOf s).filter nonblank = (splitlines s).filter nonblank := by
  have hfrom : ∀ (line : Str) (cr : Bool), (cr = true → line = []) →
      (splitlinesFrom line cr (s ++ [newline])).filter nonblank =
        (splitlinesFrom line cr s).filter nonblank := by
    intro line cr hcr
    induction s generalizing line cr with
    | nil =>
      have hbreak : isLineBreak newline = true := by decide
      by_cases htrue : cr = true
      · simp [splitlinesFrom, htrue, hcr htrue]
      · cases line with
        | nil => simp [splitlinesFrom, htrue, hbreak, nonblank, strip]
        | cons x line => simp [splitlinesFrom, htrue, hbreak]
    | cons c s ih =>
      rw [List.cons_append, splitlinesFrom, splitlinesFrom]
      split
      · exact ih [] false fun _ => rfl
      · split
        · rw [List.filter_cons, List.filter_cons, ih [] _ fun _ => rfl]
        · exact ih _ false fun h => absurd h Bool.false_ne_true
  exact hfrom [] false fun _ => rfl

theorem mem_of_mem_splitOn {s part : Str} (h : part ∈ s.splitOn newline) :
    newline ∉ part ∧ ∀ c ∈ part, c ∈ s := by
  -- a part ends at the first newline, and the text behind it is shorter
  induction hn : s.length using Nat.strongRecOn generalizing s with
  | ind n ih =>
    by_cases hmem : newline ∈ s
    · obtain ⟨u, t, rfl⟩ := List.append_of_mem hmem
      have hsplit : (u ++ newline :: t).splitOn newline = u.splitOn newline ++ t.splitOn newline :=
        List.splitOn_append_cons_self ..
      rw [hsplit, List.mem_append] at h
      rw [List.length_append, List.length_cons] at hn
      rcases h with h | h
      · obtain ⟨hnone, hsub⟩ := ih u.length (by omega) h rfl
        exact ⟨hnone, fun c hc => List.mem_append_left _ (hsub c hc)⟩
      · obtain ⟨hnone, hsub⟩ := ih t.length (by omega) h rfl
        exact ⟨hnone, fun c hc => List.mem_append_right _ (List.mem_cons_of_mem _ (hsub c hc))⟩
    · rw [List.splitOn_eq_singleton hmem, List.mem_singleton] at h
      exact ⟨h ▸ hmem, fun c hc => h ▸ hc⟩

/-- **Newline by newline**: the lines of a text are those of its parts between newlines. -/
theorem filter_splitlines (s : Str) : (splitlines s).filter nonblank =
    (s.splitOn newline).flatMap fun part => (splitlines part).filter nonblank := by
  induction hn : s.length using Nat.strongRecOn generalizing s with
  | ind n ih =>
    by_cases hmem : newline ∈ s
    · obtain ⟨u, t, rfl⟩ := List.append_of_mem hmem
      have hsplit : (u ++ newline :: t).splitOn newline = u.splitOn newline ++ t.splitOn newline :=
        List.splitOn_append_cons_self ..
      have hu := ih u.length (by rw [← hn, List.length_append, List.length_cons]; omega) u rfl
      have ht := ih t.length (by rw [← hn, List.length_append, List.length_cons]; omega) t rfl
      rw [splitlines, splitlinesFrom_append_newline, List.filter_append, hsplit, List.flatMap_append,
        ← hu, ← ht]
      exact congrArg (· ++ _) (filter_linesOf u)
    · rw [List.splitOn_eq_singleton hmem, List.flatMap_singleton]

/-- What is blank has no lines that are not, and what has no line break is one line. -/
theorem filter_splitlines_part {s : Str} (h : nonblank s = true → Unbroken s) :
    (splitlines s).filter nonblank = [s].filter nonblank := by
  cases hs : nonblank s with
  | true =>
    have hne : s.isEmpty = false := by
      cases s with
      | nil => cases hs
      | cons c s => rfl
    rw [splitlines_of_unbroken (h hs), hne]
    rfl
  | false =>
    have hblank := nonblank_eq_false_iff.mp hs
    rw [List.filter_singleton, hs, List.filter_eq_nil_iff.mpr]
    · rfl
    · intro l hl
      rw [Bool.not_eq_true, nonblank_eq_false_iff]
      exact fun c hc => hblank c ((mem_of_mem_splitlinesFrom hl hc).resolve_left List.not_mem_nil)

/-- **Where no line that is not blank has another line break**, both ways of taking a text apart
    give the same lines. -/
theorem filter_splitlines_eq_splitOn {s : Str}
    (h : ∀ part ∈ s.splitOn newline, nonblank part = true → Unbroken part) :
    (splitlines s).filter nonblank = (s.splitOn newline).filter nonblank := by
  rw [filter_splitlines, List.flatMap_congr fun part hpart => filter_splitlines_part (h part hpart),
    ← List.filter_flatMap, List.flatMap_singleton']

end Py.Str
