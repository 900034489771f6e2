import AdversarialCognition.Lib.Json
import AdversarialCognition.Lib.Printing
import Mathlib.Data.List.TakeWhile

/-!
# Lines and cells

`str.splitlines`, `str.split` at one character, and the stripping of a character: what a program
does that reads a printed table back. A text that was joined of lines is read as those lines
exactly if none of them has a line break in it (`splitlines_join`), and a row that was joined of
cells is read cell by cell (`split_join`).

## Why the line breaks matter

`splitlines` ends a line at ten characters, of which a printer of tables has in mind one. A
cell with U+2028 in it, or a carriage return, is one cell for whoever prints it and the end of a
row for whoever reads it back. So `Unbroken` is about all of them, and a result that asks for it
says which values of a report may not have them.

## Blocks

The last section is about lists of lines, and about what holds of each block of them between lines
that separate. It is stated for any list and any separating test. A block is what `List.splitOnP`
gives, so two separators with nothing between them make an empty block, and the rules ask that the
property holds of that one.
-/

namespace Py.Str

open Json (join)

/-!
## Lines

`splitlines` ends a line at eight characters besides the newline and the carriage return, and
takes the two together for one end. A text that is joined of lines at newlines is read line by
line, and a line with a break of its own as several.
-/

/-- Where a line ends for `str.splitlines`: from line feed to carriage return, the three
    separators below the space, next line, and the line and paragraph separators. -/
def isLineBreak (c : CodePoint) : Bool :=
  (0x0A ≤ c.val && c.val ≤ 0x0D) || (0x1C ≤ c.val && c.val ≤ 0x1E) || c.val = 0x85 ||
    c.val = 0x2028 || c.val = 0x2029

def newline : CodePoint := CodePoint.ofChar '\n'

def carriageReturn : CodePoint := CodePoint.ofChar '\r'

/-- The lines of a text of which `line` is read; `cr` says whether the last character was a
    carriage return, and then a newline belongs to it. The last line need not be ended, and is
    there only if it has a character. -/
def splitlinesFrom (line : Str) (cr : Bool) : Str → List Str
  | [] => if line.isEmpty then [] else [line]
  | c :: s =>
      if cr = true ∧ c = newline then splitlinesFrom [] false s
      else if isLineBreak c then line :: splitlinesFrom [] (c = carriageReturn) s
      else splitlinesFrom (line ++ [c]) false s

/-- `s.splitlines()` -/
def splitlines (s : Str) : List Str := splitlinesFrom [] false s

/-- The text has no line break. -/
def Unbroken (s : Str) : Prop := ∀ c ∈ s, isLineBreak c = false

instance (s : Str) : Decidable s.Unbroken :=
  decidable_of_iff (s.all fun c => !isLineBreak c) (by simp [Unbroken])

section Unbroken

variable {s t : Str}

theorem isLineBreak_of_printable {c : CodePoint} (hlow : 0x20 ≤ c.val) (hhigh : c.val < 0x7F) :
    isLineBreak c = false := by
  simp only [isLineBreak, Bool.or_eq_false_iff, Bool.and_eq_false_imp, decide_eq_true_eq,
    decide_eq_false_iff_not]
  omega

theorem unbroken_nil : Unbroken [] := List.forall_mem_nil _

@[simp] theorem unbroken_append : Unbroken (s ++ t) ↔ Unbroken s ∧ Unbroken t :=
  List.forall_mem_append

theorem unbroken_ofList {cs : List Char}
    (h : (cs.all fun c => !isLineBreak (CodePoint.ofChar c)) = true) :
    Unbroken (lit (String.ofList cs)) := by
  rw [Unbroken, lit, String.toList_ofList]
  refine List.forall_mem_map.2 fun c hc => ?_
  simpa using List.all_eq_true.1 h c hc

theorem unbroken_ofNat (n : ℕ) : Unbroken (ofNat n) := by
  refine List.forall_mem_map.2 fun c hc => isLineBreak_of_printable ?_ ?_
  all_goals
    have hdigit := Nat.isDigit_of_mem_toDigits (by decide) (by decide) hc
    simp only [Char.isDigit, Bool.and_eq_true, decide_eq_true_eq, UInt32.le_iff_toNat_le] at hdigit
  · exact le_trans (by decide) hdigit.1
  · exact lt_of_le_of_lt hdigit.2 (by decide)

theorem forall_mem_join_iff {P : CodePoint → Prop} {sep : String} {items : List Str}
    (hsep : ∀ c ∈ lit sep, P c) :
    (∀ c ∈ join sep items, P c) ↔ ∀ item ∈ items, ∀ c ∈ item, P c := by
  induction items with
  | nil => exact iff_of_true (List.forall_mem_nil _) (List.forall_mem_nil _)
  | cons item items ih =>
    cases items with
    | nil => simp [join]
    | cons next items =>
      have hjoin : join sep (item :: next :: items) = item ++ lit sep ++ join sep (next :: items) := by
        simp [join]
      rw [List.forall_mem_cons, ← ih, hjoin, List.forall_mem_append, List.forall_mem_append,
        and_iff_left hsep]

theorem unbroken_join_iff {sep : String} {items : List Str} (hsep : Unbroken (lit sep)) :
    Unbroken (join sep items) ↔ ∀ item ∈ items, Unbroken item :=
  forall_mem_join_iff hsep

end Unbroken

/-- What is behind a newline is read on its own, whatever was read before: a newline leaves the
    scan as it was at the start. -/
theorem splitlinesFrom_append_newline (line : Str) (cr : Bool) (s t : Str) :
    splitlinesFrom line cr (s ++ newline :: t) =
      splitlinesFrom line cr (s ++ [newline]) ++ splitlines t := by
  induction s generalizing line cr with
  | nil =>
    -- a newline behind a carriage return ends no line of its own
    by_cases hcr : cr = true
    · simp [splitlinesFrom, splitlines, hcr]
    · have hbreak : isLineBreak newline = true := by decide
      have hreturn : newline ≠ carriageReturn := by decide
      simp [splitlinesFrom, splitlines, hcr, hbreak, hreturn]
  | cons c s ih =>
    simp only [List.cons_append, splitlinesFrom]
    split
    · exact ih _ _
    · split
      · rw [ih, List.cons_append]
      · exact ih _ _

theorem splitlinesFrom_of_unbroken (line : Str) (cr : Bool) {s : Str} (hs : Unbroken s) :
    splitlinesFrom line cr (s ++ [newline]) =
      if cr = true ∧ s = [] then [] else [line ++ s] := by
  induction s generalizing line cr with
  | nil =>
    by_cases hcr : cr = true
    · simp [splitlinesFrom, hcr]
    · have hbreak : isLineBreak newline = true := by decide
      simp [splitlinesFrom, hcr, hbreak]
  | cons c s ih =>
    obtain ⟨hc, hs⟩ := List.forall_mem_cons.1 hs
    have hne : c ≠ newline := by
      rintro rfl
      exact absurd hc (by decide)
    simp [splitlinesFrom, hne, hc, ih _ _ hs]

theorem join_cons_cons (sep : String) (item next : Str) (items : List Str) :
    join sep (item :: next :: items) = item ++ lit sep ++ join sep (next :: items) := by
  simp [join]

theorem join_append (sep : String) {items more : List Str} (hitems : items ≠ [])
    (hmore : more ≠ []) :
    join sep (items ++ more) = join sep items ++ lit sep ++ join sep more := by
  induction items with
  | nil => exact absurd rfl hitems
  | cons item items ih =>
    cases items with
    | nil =>
      obtain ⟨next, more, rfl⟩ := List.exists_cons_of_ne_nil hmore
      simp [join]
    | cons next items =>
      rw [List.cons_append, List.cons_append, join_cons_cons, ← List.cons_append,
        ih (List.cons_ne_nil _ _), join_cons_cons]
      simp only [List.append_assoc]

/-- What some of the items are joined to is in what all are joined to. -/
theorem join_infix (sep : String) (items : List Str) {some : List Str} (more : List Str)
    (h : some ≠ []) : join sep some <:+: join sep (items ++ some ++ more) := by
  have hleft : join sep some <:+ join sep (items ++ some) := by
    by_cases hitems : items = []
    · rw [hitems, List.nil_append]
    · rw [join_append sep hitems h]
      exact List.suffix_append _ _
  have hright : join sep (items ++ some) <+: join sep (items ++ some ++ more) := by
    by_cases hmore : more = []
    · rw [hmore, List.append_nil]
    · rw [join_append sep (List.append_ne_nil_of_right_ne_nil _ h) hmore, List.append_assoc]
      exact List.prefix_append _ _
  exact hleft.isInfix.trans hright.isInfix

/-- The lines of a text that a newline ends. For a text without line breaks this is the text alone
    (`linesOf_of_unbroken`), and with `n` of them there are up to `n + 1`. -/
def linesOf (line : Str) : List Str := splitlines (line ++ [newline])

/-- **A text joined of lines is read line by line.** The empty line at the end stands for the
    newline that ends the text. -/
theorem splitlines_join (lines : List Str) :
    splitlines (join "\n" (lines ++ [[]])) = lines.flatMap linesOf := by
  induction lines with
  | nil => rfl
  | cons line lines ih =>
    have hjoin : join "\n" (line :: lines ++ [[]]) =
        line ++ newline :: join "\n" (lines ++ [[]]) := by
      cases lines with
      | nil => rfl
      | cons next lines => exact (join_cons_cons ..).trans (List.append_assoc ..)
    rw [hjoin, splitlines, splitlinesFrom_append_newline, ih]
    rfl

theorem linesOf_of_unbroken {line : Str} (h : Unbroken line) : linesOf line = [line] :=
  splitlinesFrom_of_unbroken [] false h

theorem flatMap_linesOf {lines : List Str} (h : ∀ line ∈ lines, Unbroken line) :
    lines.flatMap linesOf = lines := by
  rw [List.flatMap_congr fun line hline => linesOf_of_unbroken (h line hline)]
  exact List.flatMap_singleton' lines

theorem unbroken_of_mem_splitlinesFrom {line : Str} {cr : Bool} {s : Str} (hline : Unbroken line) :
    ∀ l ∈ splitlinesFrom line cr s, Unbroken l := by
  induction s generalizing line cr with
  | nil =>
    unfold splitlinesFrom
    split
    · exact List.forall_mem_nil _
    · exact List.forall_mem_singleton.2 hline
  | cons c s ih =>
    unfold splitlinesFrom
    split
    · exact ih unbroken_nil
    · split
      · exact List.forall_mem_cons.2 ⟨hline, ih unbroken_nil⟩
      · rename_i hc
        refine ih (unbroken_append.2 ⟨hline, List.forall_mem_singleton.2 ?_⟩)
        exact Bool.eq_false_of_not_eq_true hc

theorem unbroken_of_mem_splitlines {s l : Str} (h : l ∈ splitlines s) : Unbroken l :=
  unbroken_of_mem_splitlinesFrom unbroken_nil l h

/-!
## Cells

`strip` of a class of characters and `split` at one. A row that was joined of fields is read field
by field, where the fields do not begin or end with what is stripped.
-/

/-- `s.strip(chars)`, of the characters of a class. -/
def stripOf (p : CodePoint → Bool) (s : Str) : Str :=
  ((s.dropWhile p).reverse.dropWhile p).reverse

/-- `s.lstrip()` -/
def lstrip (s : Str) : Str := s.dropWhile isspace

/-- `s.split(sep)` -/
def split (sep : CodePoint) (s : Str) : List Str := s.splitOn sep

section Strip

variable {p : CodePoint → Bool} {c d : CodePoint} {s : Str}

theorem stripOf_eq_self (hs : s ≠ []) (hhead : p (s.head hs) = false)
    (hlast : p (s.getLast hs) = false) : stripOf p s = s := by
  have hleft : s.dropWhile p = s := by
    cases s with
    | nil => rfl
    | cons c s => exact List.dropWhile_cons_of_neg (Bool.eq_false_iff.1 hhead)
  have hright : s.reverse.dropWhile p = s.reverse := by
    have hne : s.reverse ≠ [] := List.reverse_ne_nil_iff.2 hs
    have hhead' : p (s.reverse.head hne) = false := by rwa [List.head_reverse]
    cases hrev : s.reverse with
    | nil => rfl
    | cons c t =>
      simp only [hrev, List.head_cons] at hhead'
      exact List.dropWhile_cons_of_neg (Bool.eq_false_iff.1 hhead')
  rw [stripOf, hleft, hright, List.reverse_reverse]

theorem stripOf_surround (hc : p c = true) (hd : p d = true) (s : Str) :
    stripOf p (c :: s ++ [d]) = stripOf p s := by
  have hleft : (c :: s ++ [d]).dropWhile p = (s ++ [d]).dropWhile p :=
    List.dropWhile_cons_of_pos hc
  unfold stripOf
  rw [hleft]
  by_cases hs : ∀ x ∈ s, p x = true
  · have hall : ∀ x ∈ s ++ [d], p x = true := by
      rw [List.forall_mem_append]
      exact ⟨hs, List.forall_mem_singleton.2 hd⟩
    rw [List.dropWhile_eq_nil_iff.2 hall, List.dropWhile_eq_nil_iff.2 hs]
  · have hne : s.dropWhile p ≠ [] := fun h => hs (List.dropWhile_eq_nil_iff.1 h)
    have happend : (s ++ [d]).dropWhile p = s.dropWhile p ++ [d] := by
      rw [List.dropWhile_append]
      simp [hne]
    rw [happend, List.reverse_append, List.reverse_singleton, List.singleton_append,
      List.dropWhile_cons_of_pos hd]

/-- What a text begins with that is not in the class stays where it is. -/
theorem head?_stripOf (hc : p c = false) (s : Str) : (stripOf p (c :: s)).head? = some c := by
  have hleft : (c :: s).dropWhile p = c :: s := List.dropWhile_cons_of_neg (Bool.eq_false_iff.1 hc)
  rw [stripOf, hleft, List.reverse_cons, List.head?_reverse, List.dropWhile_append]
  split
  · rw [List.dropWhile_cons_of_neg (Bool.eq_false_iff.1 hc)]
    rfl
  · rw [List.getLast?_append]
    rfl

end Strip

theorem split_of_notMem {sep : CodePoint} {s : Str} (h : sep ∉ s) : split sep s = [s] :=
  List.splitOn_eq_singleton h

/-- A joined text begins and ends as its items do. This is what keeps a strip of the whole from
    reaching into the items. -/
theorem ends_join {P : CodePoint → Prop} (sep : String) {items : List Str} (hne : items ≠ [])
    (h : ∀ item ∈ items, ∃ (h : item ≠ []), P (item.head h) ∧ P (item.getLast h)) :
    ∃ (h : join sep items ≠ []), P ((join sep items).head h) ∧ P ((join sep items).getLast h) := by
  induction items with
  | nil => exact absurd rfl hne
  | cons item items ih =>
    obtain ⟨⟨hitem, hhead, hlast⟩, hrest⟩ := List.forall_mem_cons.1 h
    cases items with
    | nil => simpa [join] using ⟨hitem, hhead, hlast⟩
    | cons next items =>
      obtain ⟨htail, -, htailLast⟩ := ih (List.cons_ne_nil _ _) hrest
      rw [join_cons_cons, List.append_assoc]
      refine ⟨List.append_ne_nil_of_left_ne_nil hitem _, ?_, ?_⟩
      · rwa [List.head_append_of_ne_nil hitem]
      · rw [List.getLast_append_of_ne_nil _ (List.append_ne_nil_of_right_ne_nil _ htail),
          List.getLast_append_of_ne_nil _ htail]
        exact htailLast

/-- **A row is read field by field**, and a field that has the separator in it as several. -/
theorem split_join {sep : Char} {fields : List Str} (h : fields ≠ []) :
    split (CodePoint.ofChar sep) (join (String.singleton sep) fields) =
      fields.flatMap (split (CodePoint.ofChar sep)) := by
  induction fields with
  | nil => exact absurd rfl h
  | cons field fields ih =>
    cases fields with
    | nil => simp [join]
    | cons next fields =>
      have hsep : lit (String.singleton sep) = [CodePoint.ofChar sep] := by simp [lit]
      rw [join_cons_cons, hsep, List.append_assoc, List.singleton_append, split,
        List.splitOn_append_cons_self, List.flatMap_cons]
      exact congrArg _ (ih (List.cons_ne_nil _ _))

/-!
## Blocks

A block is a maximal run of lines between those that separate. What holds of every block of a text
is put together from its parts, wherever a line that separates stands between them.
-/

section Blocks

variable {α : Type*} {p : α → Bool} {Q : List α → Prop} {sep : α} {block lines more : List α}

/-- What holds of every block between the lines that separate. -/
def EachBlock (p : α → Bool) (Q : List α → Prop) (lines : List α) : Prop :=
  ∀ block ∈ lines.splitOnP p, Q block

theorem eachBlock_append (hsep : p sep = true) :
    EachBlock p Q (lines ++ sep :: more) ↔ EachBlock p Q lines ∧ EachBlock p Q more := by
  rw [EachBlock, List.splitOnP_append_cons _ _ hsep]
  exact List.forall_mem_append

theorem eachBlock_singleton (h : ∀ line ∈ block, p line = false) : EachBlock p Q block ↔ Q block := by
  rw [EachBlock, List.splitOnP_eq_singleton h]
  exact List.forall_mem_singleton

theorem eachBlock_nil (hnil : Q []) : EachBlock p Q [] := by
  rw [EachBlock, List.splitOnP_nil]
  exact List.forall_mem_singleton.2 hnil

theorem eachBlock_cons (hnil : Q []) (hsep : p sep = true) :
    EachBlock p Q (sep :: lines) ↔ EachBlock p Q lines := by
  rw [← List.nil_append (sep :: lines), eachBlock_append hsep]
  exact and_iff_right (eachBlock_nil hnil)

/-- Lines that only separate do not count. -/
theorem eachBlock_of_forall (hnil : Q []) (h : ∀ line ∈ block, p line = true) :
    EachBlock p Q (block ++ lines) ↔ EachBlock p Q lines := by
  induction block with
  | nil => rfl
  | cons line block ih =>
    obtain ⟨hline, hblock⟩ := List.forall_mem_cons.1 h
    rw [List.cons_append, eachBlock_cons hnil hline, ih hblock]

end Blocks

end Py.Str
